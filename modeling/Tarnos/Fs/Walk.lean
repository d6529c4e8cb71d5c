import Mathlib.Data.Finset.Card
import Mathlib.Logic.Relation
import Mathlib.Order.Interval.Finset.Nat
import Tarnos.Fs.Fat

namespace Tarnos.Fs

open Driver Foundation

def fatDigit (fat : List UInt8) (i : ℕ) : ℕ := leNat fat / 2 ^ (12 * i) % 2 ^ 12

def HasDigit (fat : List UInt8) (i : ℕ) : Prop := 12 * i + 12 ≤ 8 * fat.length

namespace Fat12Volume

variable {volume : Fat12Volume} {fat : List UInt8} {c d : ℕ} {chain : List ℕ}

theorem readU16_eq (data : List UInt8) (off : ℕ) :
    readU16 data off = leNat data / 2 ^ (8 * off) % 2 ^ 16 := by
  rw [readU16, readAt, leNat_take, leNat_drop, show (256 : ℕ) = 2 ^ 8 by decide, ← pow_mul,
    ← pow_mul]

theorem fat12Entry_eq (h : HasDigit fat c) : fat12Entry fat c = .ok (fatDigit fat c) := by
  unfold HasDigit at h
  rw [fat12Entry, if_neg (by omega), readU16_eq, fatDigit]
  dsimp only
  obtain ⟨k, rfl | rfl⟩ := Nat.even_or_odd' c
  · have hoffset : 2 * k * 3 / 2 = 3 * k := by omega
    have hbits : 12 * (2 * k) = 8 * (3 * k) := by omega
    rw [if_pos (by omega), hoffset, hbits]
    congr 1
    exact Nat.mod_mod_of_dvd _ (by decide)
  · have hoffset : (2 * k + 1) * 3 / 2 = 3 * k + 1 := by omega
    have hbits : 12 * (2 * k + 1) = 8 * (3 * k + 1) + 4 := by omega
    rw [if_neg (by omega), hoffset, hbits, pow_add, ← Nat.div_div_eq_div_mul]
    congr 1
    omega

/-- Two entries share three bytes, the low byte of the first one first. A last one without a partner
takes two. -/
def packFat12 : List (BitVec 12) → List UInt8
  | [] => []
  | [a] => [UInt8.ofNat a.toNat, UInt8.ofNat (a.toNat / 256)]
  | a :: b :: rest =>
    UInt8.ofNat a.toNat :: UInt8.ofNat (a.toNat / 256 + b.toNat % 16 * 16) ::
      UInt8.ofNat (b.toNat / 16) :: packFat12 rest

theorem leNat_pair (a b : BitVec 12) (bytes : List UInt8) :
    leNat (UInt8.ofNat a.toNat :: UInt8.ofNat (a.toNat / 256 + b.toNat % 16 * 16) ::
      UInt8.ofNat (b.toNat / 16) :: bytes) = a.toNat + 2 ^ 12 * b.toNat + 2 ^ 24 * leNat bytes := by
  have ha := a.isLt
  have hb := b.isLt
  simp only [leNat_cons, UInt8.toNat_ofNat']
  omega

theorem fatDigit_packFat12 (entries : List (BitVec 12)) (further : List UInt8) {i : ℕ}
    (h : i < entries.length) : HasDigit (packFat12 entries ++ further) i ∧
      fatDigit (packFat12 entries ++ further) i = entries[i].toNat := by
  unfold HasDigit fatDigit
  -- two entries at a time, as they are packed
  induction entries using packFat12.induct generalizing i with
  | case1 => cases h
  | case2 a =>
    have hi : i = 0 := by simpa using h
    subst hi
    have ha := a.isLt
    simp only [packFat12, List.cons_append, List.nil_append, leNat_cons, UInt8.toNat_ofNat',
      List.length_cons, List.getElem_cons_zero]
    omega
  | case3 a b rest ih =>
    have ha := a.isLt
    have hb := b.isLt
    simp only [packFat12, List.cons_append, List.length_cons]
    rw [leNat_pair]
    match i, h with
    | 0, _ | 1, _ =>
      simp only [List.getElem_cons_zero, List.getElem_cons_succ]
      omega
    | i + 2, h =>
      obtain ⟨hdigit, hvalue⟩ := ih (Nat.lt_of_add_lt_add_right (n := 2) h)
      refine ⟨by omega, ?_⟩
      rw [show 12 * (i + 2) = 24 + 12 * i by omega, pow_add, ← Nat.div_div_eq_div_mul]
      rw [show (a.toNat + 2 ^ 12 * b.toNat + 2 ^ 24 * leNat (packFat12 rest ++ further)) / 2 ^ 24 =
        leNat (packFat12 rest ++ further) by omega, hvalue]
      rfl

/-- `fat12_entry` gives back what was packed. On any table it is decided by the two bytes of the
entry, and it is an error exactly if they are not both there. -/
theorem fat12Entry_inverts_packing :
    (∀ (entries : List (BitVec 12)) (further : List UInt8) (i : Fin entries.length),
      fat12Entry (packFat12 entries ++ further) i = .ok (entries.get i).toNat) ∧
    ∀ (fat : List UInt8) (cluster : UInt32), fat12Entry fat cluster.toNat =
      match fat[cluster.toNat * 3 / 2]?, fat[cluster.toNat * 3 / 2 + 1]? with
      | some low, some high => .ok (if cluster.toNat % 2 = 0 then
          (low.toNat + 256 * high.toNat) % 0x1000 else (low.toNat + 256 * high.toNat) / 0x10)
      | _, _ => .error .corruptFat := by
  refine ⟨fun entries further i ↦ ?_, fun fat cluster ↦ ?_⟩
  · obtain ⟨hdigit, hvalue⟩ := fatDigit_packFat12 entries further i.isLt
    rw [fat12Entry_eq hdigit, hvalue]
    rfl
  · rw [fat12Entry]
    generalize cluster.toNat * 3 / 2 = offset
    by_cases hshort : fat.length ≤ offset + 1
    · rw [if_pos hshort, List.getElem?_eq_none hshort]
      cases fat[offset]? <;> rfl
    · have hhigh := Nat.not_le.mp hshort
      have hlow := Nat.lt_of_succ_lt hhigh
      have hpacked : readU16 fat offset = fat[offset].toNat + 256 * fat[offset + 1].toNat := by
        rw [readU16, readAt, List.drop_eq_getElem_cons hlow, List.drop_eq_getElem_cons hhigh]
        rfl
      rw [if_neg hshort, List.getElem?_eq_getElem hlow, List.getElem?_eq_getElem hhigh, hpacked]

def Valid (volume : Fat12Volume) (c : ℕ) : Prop :=
  firstDataCluster ≤ c ∧ c < volume.totalClusters + firstDataCluster

structure Links (fat : List UInt8) (c d : ℕ) : Prop where
  has : HasDigit fat c
  digit : fatDigit fat c = d
  noEnd : d < fat12EocMin
  used : d ≠ 0
  good : d ≠ fat12BadCluster

structure Ends (fat : List UInt8) (c : ℕ) : Prop where
  has : HasDigit fat c
  marker : fat12EocMin ≤ fatDigit fat c

/-- The clusters from `c` on that the table links, up to one that ends the chain. -/
inductive Walk (fat : List UInt8) : ℕ → List ℕ → Prop
  | last {c : ℕ} (hend : Ends fat c) : Walk fat c [c]
  | link {c d : ℕ} {rest : List ℕ} (hlink : Links fat c d) (hrest : Walk fat d rest) :
      Walk fat c (c :: rest)

theorem Links.not_ends (h : Links fat c d) : ¬ Ends fat c := by
  intro hend
  have hmarker := hend.marker
  rw [h.digit] at hmarker
  exact absurd h.noEnd (Nat.not_lt.mpr hmarker)

namespace Walk

theorem head (h : Walk fat c chain) : chain.head? = some c := by
  cases h <;> rfl

theorem unique {chain' : List ℕ} (h : Walk fat c chain) (h' : Walk fat c chain') :
    chain = chain' := by
  induction h generalizing chain' with
  | last hend =>
    cases h' with
    | last _ => rfl
    | link hlink _ => exact absurd hend hlink.not_ends
  | link hlink _ ih =>
    cases h' with
    | last hend => exact absurd hend hlink.not_ends
    | link hlink' hrest' =>
      have hsame := hlink.digit.symm.trans hlink'.digit
      subst hsame
      rw [ih hrest']

theorem suffix (h : Walk fat c chain) {x : ℕ} (hx : x ∈ chain) :
    ∃ rest, Walk fat x rest ∧ rest.length ≤ chain.length := by
  induction h with
  | last hend =>
    rw [List.mem_singleton] at hx
    subst hx
    exact ⟨_, .last hend, le_rfl⟩
  | link hlink hrest ih =>
    obtain rfl | hx := List.mem_cons.mp hx
    · exact ⟨_, .link hlink hrest, le_rfl⟩
    · obtain ⟨rest, hwalk, hlength⟩ := ih hx
      exact ⟨rest, hwalk, hlength.trans (Nat.le_succ _)⟩

theorem nodup (h : Walk fat c chain) : chain.Nodup := by
  induction h with
  | last _ => exact List.nodup_singleton _
  | link hlink hrest ih =>
    apply List.nodup_cons.mpr
    refine ⟨fun hmem ↦ ?_, ih⟩
    -- from a second visit on, the walk would be both the whole one and a shorter one
    obtain ⟨rest', hwalk, hlength⟩ := hrest.suffix hmem
    rw [← unique (.link hlink hrest) hwalk] at hlength
    exact absurd hlength (Nat.not_succ_le_self _)

theorem mem_iff (h : Walk fat c chain) {x : ℕ} :
    x ∈ chain ↔ Relation.ReflTransGen (Links fat) c x := by
  induction h with
  | last hend =>
    rw [List.mem_singleton]
    constructor
    · rintro rfl
      exact .refl
    · intro hlinks
      rcases Relation.ReflTransGen.cases_head hlinks with heq | ⟨d, hlink, -⟩
      · exact heq.symm
      · exact absurd hend hlink.not_ends
  | @link c d rest hlink _ ih =>
    rw [List.mem_cons, ih]
    constructor
    · rintro (rfl | hlinks)
      · exact .refl
      · exact .head hlink hlinks
    · intro hlinks
      rcases Relation.ReflTransGen.cases_head hlinks with heq | ⟨d', hlink', hrest⟩
      · exact .inl heq.symm
      · have hsame := hlink.digit.symm.trans hlink'.digit
        subst hsame
        exact .inr hrest

end Walk

theorem fat12Entry_ok_iff {next : ℕ} :
    fat12Entry fat c = .ok next ↔ HasDigit fat c ∧ fatDigit fat c = next := by
  by_cases hdigit : HasDigit fat c
  · rw [fat12Entry_eq hdigit, Except.ok.injEq]
    exact ⟨fun h ↦ ⟨hdigit, h⟩, fun h ↦ h.2⟩
  · have hshort : fat.length ≤ c * 3 / 2 + 1 := by
      unfold HasDigit at hdigit
      omega
    have herror : fat12Entry fat c = .error .corruptFat := by
      rw [fat12Entry]
      exact if_pos hshort
    rw [herror]
    exact ⟨fun h ↦ (by cases h), fun h ↦ absurd h.1 hdigit⟩

/-- The walk that `cluster_chain` accepts: of numbers from 2 on, and no longer than the volume has
clusters. -/
structure Accepted (volume : Fat12Volume) (fat : List UInt8) (start : ℕ) (chain : List ℕ) : Prop where
  walk : Walk fat start chain
  low : ∀ c ∈ chain, firstDataCluster ≤ c
  short : chain.length ≤ volume.totalClusters

theorem clusterChainFrom_ok {before : List ℕ}
    (h : clusterChainFrom volume fat before c = (chain, .ok ())) :
    ∃ rest, chain = before ++ rest ∧ Walk fat c rest ∧ (∀ x ∈ rest, firstDataCluster ≤ x) ∧
      before.length + rest.length ≤ volume.totalClusters := by
  fun_induction clusterChainFrom volume fat before c with
  | case1 => cases h
  | case2 => cases h
  | case3 => cases h
  | case4 before c hlow hshort next hentry hend =>
    cases h
    obtain ⟨hdigit, rfl⟩ := fat12Entry_ok_iff.mp hentry
    refine ⟨[c], rfl, .last ⟨hdigit, hend⟩, ?_, ?_⟩
    · intro x hx
      rw [List.mem_singleton.mp hx]
      omega
    · rw [List.length_singleton]
      omega
  | case5 => cases h
  | case6 before c hlow hshort next hentry hend hbad ih =>
    obtain ⟨hdigit, hnext⟩ := fat12Entry_ok_iff.mp hentry
    obtain ⟨rest, hchain, hwalk, hfirst, hlength⟩ := ih h
    push Not at hbad
    have hlink : Links fat c next := ⟨hdigit, hnext, by omega, hbad.1, hbad.2⟩
    refine ⟨c :: rest, ?_, .link hlink hwalk, ?_, ?_⟩
    · rw [hchain, List.append_assoc, List.singleton_append]
    · intro x hx
      rcases List.mem_cons.mp hx with heq | hx
      · omega
      · exact hfirst x hx
    · rw [List.length_append, List.length_singleton] at hlength
      rw [List.length_cons]
      omega

theorem clusterChainFrom_walk (h : Walk fat c chain) {before : List ℕ}
    (hlow : ∀ x ∈ chain, firstDataCluster ≤ x)
    (hlength : before.length + chain.length ≤ volume.totalClusters) :
    clusterChainFrom volume fat before c = (before ++ chain, .ok ()) := by
  induction h generalizing before with
  | last hend =>
    rw [List.length_singleton] at hlength
    have hfirst := hlow _ List.mem_cons_self
    rw [clusterChainFrom, if_neg (by omega), if_neg (by omega),
      fat12Entry_eq hend.has]
    simp only [hend.marker, if_true]
  | @link c d rest hlink hrest ih =>
    rw [List.length_cons] at hlength
    have hfirst := hlow _ List.mem_cons_self
    have hnoEnd := hlink.noEnd
    rw [clusterChainFrom, if_neg (by omega), if_neg (by omega),
      fat12Entry_ok_iff.mpr ⟨hlink.has, hlink.digit⟩]
    dsimp only
    rw [if_neg (by omega), if_neg (not_or.mpr ⟨hlink.used, hlink.good⟩), ih, List.append_assoc,
      List.singleton_append]
    · exact fun x hx ↦ hlow x (List.mem_cons_of_mem _ hx)
    · rw [List.length_append, List.length_singleton]
      omega

theorem Accepted.loop (h : volume.Accepted fat c chain) :
    clusterChainFrom volume fat [] c = (chain, .ok ()) := by
  have hlength := h.short
  exact clusterChainFrom_walk h.walk h.low (by rwa [List.length_nil, Nat.zero_add])

theorem Accepted.visited (h : volume.Accepted fat c chain) :
    volume.visited fat c = chain.length := by
  rw [Fat12Volume.visited, h.loop]

theorem clusterChain_ok_iff {start : ℕ} :
    volume.clusterChain fat start = .ok chain ↔ volume.Accepted fat start chain := by
  constructor
  · intro h
    unfold clusterChain at h
    split at h
    · cases h
    rename_i hloop
    cases h
    obtain ⟨rest, rfl, hwalk, hlow, hlength⟩ := clusterChainFrom_ok hloop
    rw [List.length_nil, Nat.zero_add] at hlength
    exact ⟨hwalk, hlow, hlength⟩
  · intro h
    rw [clusterChain, h.loop]

/-- The chain of valid clusters that the table links, up to an end marker. -/
structure Chain (volume : Fat12Volume) (fat : List UInt8) (c : ℕ) (chain : List ℕ) : Prop where
  walk : Walk fat c chain
  valid : ∀ x ∈ chain, volume.Valid x

theorem Chain.accepted (h : Chain volume fat c chain) : volume.Accepted fat c chain := by
  refine ⟨h.walk, fun x hx ↦ (h.valid x hx).1, ?_⟩
  have hsub : chain.toFinset ⊆
      Finset.Ico firstDataCluster (volume.totalClusters + firstDataCluster) := by
    intro x hx
    exact Finset.mem_Ico.mpr (h.valid x (List.mem_toFinset.mp hx))
  have hcard := Finset.card_le_card hsub
  rwa [List.toFinset_card_of_nodup h.walk.nodup, Nat.card_Ico, Nat.add_sub_cancel] at hcard

/-- What a chain should be: non-empty from the start cluster on, linked up to an end marker, without
repetition, no longer than the volume, and of clusters whose sectors are the volume's own. -/
structure Sound (volume : Fat12Volume) (fat : List UInt8) (start : ℕ) (chain : List ℕ) : Prop where
  head : chain.head? = some start
  walk : Walk fat start chain
  nodup : chain.Nodup
  short : chain.length ≤ volume.totalClusters
  valid : ∀ c ∈ chain, volume.Valid c
  region : ∀ c ∈ chain, volume.dataStartLba ≤ volume.clusterLba c ∧
    volume.clusterLba c + volume.sectorsPerCluster ≤
      volume.dataStartLba + volume.totalClusters * volume.sectorsPerCluster

theorem Valid.region (h : volume.Valid c) : volume.dataStartLba ≤ volume.clusterLba c ∧
    volume.clusterLba c + volume.sectorsPerCluster ≤
      volume.dataStartLba + volume.totalClusters * volume.sectorsPerCluster := by
  obtain ⟨hlow, hhigh⟩ := h
  have hcount : c - firstDataCluster + 1 ≤ volume.totalClusters := by omega
  have hsectors := Nat.mul_le_mul_right volume.sectorsPerCluster hcount
  rw [Nat.add_mul, Nat.one_mul] at hsectors
  unfold clusterLba
  omega

/-- The chain that `cluster_chain` returns is sound exactly if the links from the start cluster stay
below the end of the volume. -/
theorem clusterChain_sound_iff (volume : Fat12Volume) (fat : List UInt8) (start : ℕ)
    (chain : List ℕ) (h : volume.clusterChain fat start = .ok chain) :
    volume.Sound fat start chain ↔ ∀ c, Relation.ReflTransGen (Links fat) start c →
      c < volume.totalClusters + firstDataCluster := by
  obtain ⟨hwalk, hlow, hshort⟩ := clusterChain_ok_iff.mp h
  constructor
  · intro hsound c hc
    exact (hsound.valid c (hwalk.mem_iff.mpr hc)).2
  · intro hbound
    have hvalid : ∀ c ∈ chain, volume.Valid c := fun c hc ↦
      ⟨hlow c hc, hbound c (hwalk.mem_iff.mp hc)⟩
    exact ⟨hwalk.head, hwalk, hwalk.nodup, hshort, hvalid, fun c hc ↦ (hvalid c hc).region⟩

def diskVolume (sectorsPerCluster : UInt8) : Fat12Volume :=
  ⟨sectorsPerCluster.toNat, 1, 1, 2, 1, 3, 61 / sectorsPerCluster.toNat⟩

/-- A table in which cluster 2 leads to cluster 3, and the chains of 3 and of 100 end at once. -/
def farTable : List UInt8 :=
  [0xF0, 0xFF, 0xFF, 0x03, 0xF0, 0xFF] ++ List.replicate 144 0 ++ [0xFF, 0x0F]

theorem walk_farTable : Walk farTable 2 [2, 3] ∧ Walk farTable 100 [100] := by
  constructor
  · refine .link ⟨?_, by decide +kernel, by decide, by decide, by decide⟩ (.last ⟨?_, ?_⟩)
    · unfold HasDigit
      decide +kernel
    · unfold HasDigit
      decide +kernel
    · decide +kernel
  · refine .last ⟨?_, by decide +kernel⟩
    unfold HasDigit
    decide +kernel

theorem accepted_farTable : (diskVolume 1).Accepted farTable 2 [2, 3] ∧
    (diskVolume 1).Accepted farTable 100 [100] :=
  ⟨⟨walk_farTable.1, by decide, by decide⟩, ⟨walk_farTable.2, by decide, by decide⟩⟩

theorem clusterChain_sound_farTable : (diskVolume 1).Sound farTable 2 [2, 3] := by
  have hok := clusterChain_ok_iff.mpr accepted_farTable.1
  refine (clusterChain_sound_iff (diskVolume 1) farTable 2 [2, 3] hok).mpr fun c hc ↦ ?_
  have hmem : c ∈ [2, 3] := walk_farTable.1.mem_iff.mpr hc
  rcases List.mem_cons.mp hmem with rfl | hmem
  · decide
  · rw [List.mem_singleton.mp hmem]
    decide

/-- The volume has 61 clusters, and the chain is accepted with cluster 100. -/
theorem clusterChain_past_end : (diskVolume 1).clusterChain farTable 100 = .ok [100] ∧
    ¬ (diskVolume 1).Sound farTable 100 [100] := by
  refine ⟨clusterChain_ok_iff.mpr accepted_farTable.2, fun h ↦ ?_⟩
  have hhigh := (h.valid 100 List.mem_cons_self).2
  revert hhigh
  decide

end Fat12Volume

end Tarnos.Fs
