import Tarnos.Driver.Virtqueue

namespace Tarnos.Driver

open Foundation Foundation.Transition VirtioBlk

def Store.Apart (store store' : Store) : Prop :=
  store.part ≠ store'.part ∨ store.offset + store.bytes.length ≤ store'.offset ∨
    store'.offset + store'.bytes.length ≤ store.offset

theorem Store.Apart.symm {store store' : Store} (h : store.Apart store') : store'.Apart store :=
  h.imp Ne.symm Or.symm

/-- A request that a device of this capacity cannot serve: it is empty, misaligned, too large,
overflowing or out of range. -/
def Request.Rejected (req : Request) (capacity : ℕ) : Prop :=
  req.len = 0 ∨ req.len % sectorSize ≠ 0 ∨ dataBufferSize < req.len ∨
    2 ^ 64 ≤ req.lba.toNat + req.len / sectorSize ∨ capacity < req.lba.toNat + req.len / sectorSize

instance (req : Request) (capacity : ℕ) : Decidable (req.Rejected capacity) :=
  inferInstanceAs (Decidable (_ ∨ _ ∨ _ ∨ _ ∨ _))

namespace VirtioBlk

variable {blk : VirtioBlk} {ram : ByteMemory} {req : Request} {store store' : Store} {part : Part}

def Holds (blk : VirtioBlk) (ram : ByteMemory) (store : Store) : Prop :=
  ram.slice (blk.addr store.part + store.offset) store.bytes.length = store.bytes

def Prepared (blk : VirtioBlk) (ram : ByteMemory) (req : Request) : Prop :=
  ∀ store ∈ blk.requestStores req, blk.Holds ram store

def chain (blk : VirtioBlk) (req : Request) : List Descriptor :=
  [⟨blk.addr .header, 16, virtqDescFNext, 1⟩,
    ⟨blk.addr .data, req.len, virtqDescFNext ||| virtqDescFWrite, 2⟩,
    ⟨blk.addr .status, 1, virtqDescFWrite, 0⟩]

theorem usedIdx_fits (value : UInt16) : 2 + (leBytes 2 value.toNat).length ≤ 4096 := by
  rw [length_leBytes]
  decide

def usedIdx (value : UInt16) : Store := ⟨.used, 2, leBytes 2 value.toNat, usedIdx_fits value⟩

theorem put_other {a : ℕ} (hpart : store.part ≠ part) (ha : a < 4096) :
    blk.put ram store (blk.addr part + a) = ram (blk.addr part + a) := by
  have hne : blk.frame store.part ≠ blk.frame part := fun h ↦ hpart (blk.frame_injective h)
  have hfits := store.fits
  have hapart : ∀ i < a + 1, blk.put ram store (blk.addr part + i) = ram (blk.addr part + i) := by
    refine ByteMemory.store_apart ?_
    simp only [addr]
    omega
  exact hapart a (Nat.lt_succ_self a)

theorem Holds.put (hapart : store.Apart store') (h : blk.Holds ram store') :
    blk.Holds (blk.put ram store) store' := by
  refine (ByteMemory.slice_congr ?_).trans h
  have hfits := store'.fits
  by_cases hpart : store.part = store'.part
  · have hoffset := hapart.resolve_left (absurd hpart)
    refine ByteMemory.store_apart ?_
    rw [hpart]
    omega
  · intro i hi
    rw [Nat.add_assoc]
    exact put_other hpart (by omega)

theorem holds_put (ram : ByteMemory) (store : Store) : blk.Holds (blk.put ram store) store :=
  ram.slice_store ..

theorem Holds.load {offset count value : ℕ} {hfits : offset + (leBytes count value).length ≤ 4096}
    (h : blk.Holds ram ⟨part, offset, leBytes count value, hfits⟩) :
    ram.load (blk.addr part + offset) count = value % 256 ^ count := by
  unfold Holds at h
  simp only [length_leBytes] at h
  rw [ByteMemory.load, h, leNat_leBytes]

theorem Holds.index {offset : ℕ} {index : UInt16}
    {hfits : offset + (leBytes 2 index.toNat).length ≤ 4096}
    (h : blk.Holds ram ⟨part, offset, leBytes 2 index.toNat, hfits⟩) :
    UInt16.ofNat (ram.load (blk.addr part + offset) 2) = index := by
  rw [h.load, Nat.mod_eq_of_lt (by exact index.toNat_lt), UInt16.ofNat_toNat]

theorem requestStores_part (hmem : store ∈ blk.requestStores req) :
    store.part = .header ∨ store.part = .status ∨ store.part = .desc := by
  simp only [requestStores, writeDesc, List.cons_append, List.nil_append, List.mem_cons,
    List.not_mem_nil, or_false] at hmem
  rcases hmem with rfl | rfl | rfl | rfl | rfl | rfl | rfl | rfl | rfl | rfl | rfl | rfl | rfl | rfl |
    rfl | rfl <;> simp

theorem requestStores_apart (blk : VirtioBlk) (req : Request) :
    (blk.requestStores req).Pairwise Store.Apart := by
  simp [requestStores, writeDesc, Store.Apart, length_leBytes]

theorem Prepared.put (hpart : store.part = .avail) (h : blk.Prepared ram req) :
    blk.Prepared (blk.put ram store) req := by
  intro store' hmem
  refine (h store' hmem).put (.inl ?_)
  rcases requestStores_part hmem with hpart' | hpart' | hpart' <;> rw [hpart, hpart'] <;> decide

theorem addr_lt (blk : VirtioBlk) (part : Part) : blk.addr part < 2 ^ 64 := by
  have hframe := blk.frame_lt part
  unfold addr
  omega

theorem read_writeDesc {index : Fin 3} {addr len : ℕ} {flags next : UInt16} (haddr : addr < 2 ^ 64)
    (hlen : len < 2 ^ 32) (h : ∀ store ∈ writeDesc index addr len flags next, blk.Holds ram store) :
    Descriptor.read ram (blk.addr .desc + index * 16) = ⟨addr, len, flags, next⟩ := by
  simp only [writeDesc, List.forall_mem_cons] at h
  obtain ⟨h₁, h₂, h₃, h₄, -⟩ := h
  have hflags := h₃.index
  have hnext := h₄.index
  unfold Descriptor.read
  rw [h₁.load, Nat.add_assoc, h₂.load, Nat.add_assoc, hflags, Nat.add_assoc, hnext,
    Nat.mod_eq_of_lt (by omega), Nat.mod_eq_of_lt (by omega)]

theorem check_cases (blk : VirtioBlk) (req : Request) :
    blk.check req = .ok () ∧ ¬ req.Rejected blk.capacitySectors.toNat ∨
      ∃ e, blk.check req = .error e ∧ req.Rejected blk.capacitySectors.toNat := by
  unfold check Request.Rejected
  split
  · exact .inr ⟨_, rfl, by tauto⟩
  split
  · exact .inr ⟨_, rfl, by tauto⟩
  split
  · exact .inr ⟨_, rfl, by tauto⟩
  split
  · exact .inr ⟨_, rfl, by tauto⟩
  · exact .inl ⟨rfl, by tauto⟩

theorem check_eq_ok : blk.check req = .ok () ↔ ¬ req.Rejected blk.capacitySectors.toNat := by
  rcases blk.check_cases req with ⟨hok, hgood⟩ | ⟨e, herror, hbad⟩
  · exact iff_of_true hok hgood
  · rw [herror]
    exact iff_of_false (fun h ↦ by cases h) (not_not.mpr hbad)

theorem of_check (h : blk.check req = .ok ()) : 0 < req.len ∧ req.len ≤ 4096 := by
  have hgood := check_eq_ok.mp h
  have hsize : dataBufferSize = 4096 := rfl
  simp only [Request.Rejected, not_or] at hgood
  omega

theorem Prepared.descriptors (h : blk.Prepared ram req) (hok : blk.check req = .ok ()) :
    [0, 1, 2].map (fun i ↦ Descriptor.read ram (blk.addr .desc + i * 16)) = blk.chain req := by
  have hlen := (of_check hok).2
  simp only [Prepared, requestStores, List.forall_mem_append] at h
  obtain ⟨⟨⟨-, h₀⟩, h₁⟩, h₂⟩ := h
  have hread₀ := read_writeDesc (blk.addr_lt .header) (by decide) h₀
  have hread₁ := read_writeDesc (blk.addr_lt .data) (by omega) h₁
  have hread₂ := read_writeDesc (blk.addr_lt .status) (by decide) h₂
  exact congr (congrArg _ hread₀) (congr (congrArg _ hread₁) (congrArg (· :: []) hread₂))

theorem flags_hasNext : decide (virtqDescFNext &&& virtqDescFNext ≠ 0) = true ∧
    decide ((virtqDescFNext ||| virtqDescFWrite) &&& virtqDescFNext ≠ 0) = true ∧
    ¬ decide (virtqDescFWrite &&& virtqDescFNext ≠ 0) = true := by decide

theorem flags_isWritable : decide (virtqDescFNext &&& virtqDescFWrite ≠ 0) = false ∧
    decide ((virtqDescFNext ||| virtqDescFWrite) &&& virtqDescFWrite ≠ 0) = true ∧
    decide (virtqDescFWrite &&& virtqDescFWrite ≠ 0) = true := by decide

theorem readable_chain (blk : VirtioBlk) (req : Request) (ram : ByteMemory) :
    (readable (blk.chain req)).map ram = ram.slice (blk.addr .header) 16 := by
  simp only [readable, chain, List.filter_cons, List.filter_nil, Descriptor.isWritable,
    flags_isWritable]
  simp [Descriptor.addrs, ByteMemory.slice]

theorem writable_chain (blk : VirtioBlk) (req : Request) : writable (blk.chain req) =
    ((List.range req.len).map fun i ↦ blk.addr .data + i) ++ [blk.addr .status] := by
  simp only [writable, chain, List.filter_cons, List.filter_nil, Descriptor.isWritable,
    flags_isWritable]
  simp [Descriptor.addrs]

theorem chainRequest_chain (h : ∀ store ∈ (blk.requestStores req).take 3, blk.Holds ram store) :
    chainType ram (blk.chain req) = virtioBlkTIn ∧ chainRequest ram (blk.chain req) = req := by
  simp only [requestStores, List.cons_append, List.take_succ_cons, List.take_zero,
    List.forall_mem_cons] at h
  obtain ⟨htype, -, hlba, -⟩ := h
  have hslice : ∀ skip count : ℕ, skip + count ≤ 16 →
      ((ram.slice (blk.addr .header) 16).drop skip).take count =
        ram.slice (blk.addr .header + skip) count := by
    intro skip count hle
    apply List.ext_getElem
    · simp only [List.length_take, List.length_drop, ByteMemory.length_slice]
      omega
    · intro i hi hi'
      simp [ByteMemory.slice, Nat.add_assoc]
  have hlen : (writable (blk.chain req)).length - 1 = req.len := by simp [writable_chain]
  constructor
  · have hload := htype.load
    have hfirst := hslice 0 4 (by decide)
    rw [List.drop_zero] at hfirst
    rw [chainType, readable_chain, hfirst]
    exact hload
  · have hload := hlba.load
    rw [Nat.mod_eq_of_lt (by exact req.lba.toNat_lt)] at hload
    rw [chainRequest, readable_chain, hslice 8 8 (by decide), hlen]
    change Request.mk (UInt64.ofNat (ram.load _ 8)) req.len = req
    rw [hload, UInt64.ofNat_toNat]

theorem header_put (hpart : store.part = .data ∨ store.part = .status)
    (h : ∀ store' ∈ (blk.requestStores req).take 3, blk.Holds ram store') :
    ∀ store' ∈ (blk.requestStores req).take 3, blk.Holds (blk.put ram store) store' := by
  intro store' hmem
  have hpart' : store'.part = .header := by
    simp only [requestStores, List.cons_append, List.take_succ_cons, List.take_zero,
      List.mem_cons, List.not_mem_nil, or_false] at hmem
    rcases hmem with rfl | rfl | rfl <;> rfl
  refine (h store' hmem).put (.inl ?_)
  rcases hpart with hpart | hpart <;> rw [hpart, hpart'] <;> decide

theorem of_put_ne {a : ℕ} (h : blk.put ram store a ≠ ram a) :
    ∃ i < 4096, a = blk.addr store.part + i ∧ i < store.offset + store.bytes.length := by
  have hfits := store.fits
  refine ⟨a - blk.addr store.part, ?_⟩
  by_contra hout
  rcases Nat.lt_or_ge a (blk.addr store.part + store.offset) with hlt | hge
  · exact h (ByteMemory.store_of_lt hlt)
  · exact h (ByteMemory.store_of_ge (by omega))

end VirtioBlk

namespace Exchange

variable {blk : VirtioBlk} {sector : ℕ → List UInt8} {s s' : Exchange} {req : Request} {move : Move}
  {results : List (Request × Except BlockError (List UInt8))} {served : List (Request × UInt8)}
  {target : UInt16} {store : Store}

def Settled (blk : VirtioBlk) (s : Exchange) : Prop :=
  s.device = .idle ∧ blk.Holds s.ram (writeAvailIdx s.counter) ∧
    blk.Holds s.ram (usedIdx s.counter)

/-- What a call returns whose request the device served with this status. -/
def answer (sector : ℕ → List UInt8) (served : Request × UInt8) :
    Request × Except BlockError (List UInt8) :=
  (served.1, if served.2 = virtioBlkSOk then
    .ok (stored sector served.1.lba.toNat (served.1.len / sectorSize)) else .error .deviceError)

/-- The calls with requests that can be served returned what the device answered, one for one, and
the others the error of the check. -/
structure Matched (blk : VirtioBlk) (sector : ℕ → List UInt8)
    (results : List (Request × Except BlockError (List UInt8))) (served : List (Request × UInt8)) :
    Prop where
  accepted : results.filter (fun r ↦ ¬ r.1.Rejected blk.capacitySectors.toNat) =
    served.map (answer sector)
  rejected : ∀ r ∈ results, r.1.Rejected blk.capacitySectors.toNat →
    ∃ e, blk.check r.1 = .error e ∧ r.2 = .error e

/-- The request of the call in progress is the last one the device has served, and what it answered
is in the buffers. -/
def Answered (blk : VirtioBlk) (sector : ℕ → List UInt8) (s : Exchange) (req : Request) : Prop :=
  blk.check req = .ok () ∧ ∃ served, s.served = served ++ [(req, s.ram (blk.addr .status))] ∧
    Matched blk sector s.results served ∧ (s.ram (blk.addr .status) = virtioBlkSOk →
      s.ram.slice (blk.addr .data) req.len = stored sector req.lba.toNat (req.len / sectorSize))

def Ready (blk : VirtioBlk) (sector : ℕ → List UInt8) (s : Exchange) (req : Request) : Prop :=
  s.Settled blk ∧ Matched blk sector s.results s.served ∧ blk.check req = .ok () ∧
    blk.Prepared s.ram req

def Published (blk : VirtioBlk) (s : Exchange) : Prop :=
  blk.Holds s.ram (writeAvailIdx (s.counter + 1)) ∧
    blk.Holds s.ram (usedIdx s.counter)

def Open (blk : VirtioBlk) (sector : ℕ → List UInt8) (s : Exchange) (req : Request) : Prop :=
  s.Published blk ∧ Matched blk sector s.results s.served ∧ blk.check req = .ok ()

inductive InFlight (blk : VirtioBlk) (sector : ℕ → List UInt8) (s : Exchange) (req : Request) :
    UInt16 → Prop
  | idle (hopen : s.Open blk sector req) (hprepared : blk.Prepared s.ram req)
      (hdevice : s.device = .idle)
      (hentry : blk.Holds s.ram (blk.writeAvailRingEntry s.counter 0)) :
      InFlight blk sector s req (s.counter + 1)
  | walking {k : ℕ} (hopen : s.Open blk sector req) (hprepared : blk.Prepared s.ram req) (hk : k < 3)
      (hdevice : s.device = .walking 0 (UInt16.ofNat k) ((blk.chain req).take k)) :
      InFlight blk sector s req (s.counter + 1)
  | serving (hopen : s.Open blk sector req) (hdevice : s.device = .serving 0 (blk.chain req))
      (hheader : ∀ store ∈ (blk.requestStores req).take 3, blk.Holds s.ram store) :
      InFlight blk sector s req (s.counter + 1)
  | answered (hpublished : s.Published blk) (hdevice : s.device = .answered 0 ∨ s.device = .posted)
      (hanswered : s.Answered blk sector req) : InFlight blk sector s req (s.counter + 1)
  | returning (hsettled : s.Settled blk) (hanswered : s.Answered blk sector req) :
      InFlight blk sector s req s.counter

inductive Stage (blk : VirtioBlk) (sector : ℕ → List UInt8) (s : Exchange) : Phase → Prop
  | idle (hsettled : s.Settled blk) (hmatched : Matched blk sector s.results s.served) :
      Stage blk sector s .idle
  | writing {req : Request} {done rest : List Store} (hsettled : s.Settled blk)
      (hmatched : Matched blk sector s.results s.served) (hok : blk.check req = .ok ())
      (hall : blk.requestStores req = done ++ rest) (hdone : ∀ store ∈ done, blk.Holds s.ram store) :
      Stage blk sector s (.writing req rest)
  | readingIdx {req : Request} (hready : s.Ready blk sector req) :
      Stage blk sector s (.readingIdx req)
  | writingEntry {req : Request} (hready : s.Ready blk sector req) :
      Stage blk sector s (.writingEntry req s.counter)
  | writingIdx {req : Request} (hready : s.Ready blk sector req)
      (hentry : blk.Holds s.ram (blk.writeAvailRingEntry s.counter 0)) :
      Stage blk sector s (.writingIdx req s.counter)
  | notifying {req : Request} {target : UInt16} (hflight : s.InFlight blk sector req target) :
      Stage blk sector s (.notifying req target)
  | waiting {req : Request} {target : UInt16} (hflight : s.InFlight blk sector req target) :
      Stage blk sector s (.waiting req target)
  | readingStatus {req : Request} (hsettled : s.Settled blk) (hanswered : s.Answered blk sector req) :
      Stage blk sector s (.readingStatus req)
  | copying {req : Request} (hsettled : s.Settled blk) (hanswered : s.Answered blk sector req)
      (hstatus : s.ram (blk.addr .status) = virtioBlkSOk) : Stage blk sector s (.copying req)

theorem succ_ne (index : UInt16) : index ≠ index + 1 := by
  intro h
  have hnat := congrArg UInt16.toNat h
  rw [UInt16.toNat_add] at hnat
  have hlt := index.toNat_lt
  simp at hnat
  omega

theorem Settled.still (h : s.Settled blk) : s.deviceStep blk sector move = none := by
  obtain ⟨hdevice, havail, -⟩ := h
  have hindex : blk.readAvailIdx s.ram = s.counter := havail.index
  cases move <;> simp [deviceStep, hdevice, hindex]

theorem Settled.put (hused : store.part ≠ .used) (havail : store.part ≠ .avail ∨ 4 ≤ store.offset)
    (h : s.Settled blk) (driver : Phase) :
    { s with ram := blk.put s.ram store, driver := driver }.Settled blk := by
  obtain ⟨hdevice, hindex, hold⟩ := h
  refine ⟨hdevice, hindex.put (havail.imp_right fun hle ↦ .inr ?_), hold.put (.inl hused)⟩
  simpa [writeAvailIdx, length_leBytes] using hle

theorem Matched.finish (status : UInt8) (h : Matched blk sector results served)
    (hok : blk.check req = .ok ()) : Matched blk sector
      (results ++ [answer sector (req, status)]) (served ++ [(req, status)]) := by
  have hgood : ¬ (answer sector (req, status)).1.Rejected blk.capacitySectors.toNat :=
    check_eq_ok.mp hok
  constructor
  · rw [List.filter_append, h.accepted, List.map_append, List.filter_cons_of_pos (by simpa using hgood),
      List.filter_nil, List.map_cons, List.map_nil]
  · intro r hr hbad
    rcases List.mem_append.mp hr with hr | hr
    · exact h.rejected r hr hbad
    · rw [List.mem_singleton.mp hr] at hbad
      exact absurd hbad hgood

theorem Matched.reject {e : BlockError} (h : Matched blk sector results served)
    (hreject : blk.check req = .error e) :
    Matched blk sector (results ++ [(req, .error e)]) served := by
  have hbad : req.Rejected blk.capacitySectors.toNat := by
    rw [← not_not (a := req.Rejected _), ← check_eq_ok, hreject]
    exact fun h ↦ by cases h
  constructor
  · rw [List.filter_append, h.accepted, List.filter_cons_of_neg (by simpa using hbad), List.filter_nil,
      List.append_nil]
  · intro r hr hbad'
    rcases List.mem_append.mp hr with hr | hr
    · exact h.rejected r hr hbad'
    · rw [List.mem_singleton.mp hr]
      exact ⟨e, hreject, rfl⟩

theorem Answered.put (hused : store.part = .used) (device : DevicePhase) (counter : UInt16)
    (h : s.Answered blk sector req) :
    { s with ram := blk.put s.ram store, device := device, counter := counter }.Answered blk sector
      req := by
  obtain ⟨hok, served, hlast, hmatched, hgood⟩ := h
  have hle := (of_check hok).2
  have hstatus : blk.put s.ram store (blk.addr .status) = s.ram (blk.addr .status) :=
    put_other (a := 0) (by rw [hused]; decide) (by decide)
  refine ⟨hok, served, hlast.trans (congrArg (fun status ↦ _ ++ [(req, status)]) hstatus.symm),
    hmatched, fun hzero ↦ ?_⟩
  refine (ByteMemory.slice_congr fun i hi ↦ ?_).trans (hgood (hstatus.symm.trans hzero))
  exact put_other (by rw [hused]; decide) (by omega)

theorem Stage.call (h : s.Stage blk sector s.driver) (hs : s.call blk req = some s') :
    s'.Stage blk sector s'.driver := by
  unfold Exchange.call at hs
  split at hs
  · rename_i hidle
    rw [hidle] at h
    cases h with
    | idle hsettled hmatched =>
      split at hs
      · rename_i e hreject
        cases hs
        exact .idle hsettled (hmatched.reject hreject)
      · rename_i hok
        cases hs
        exact .writing hsettled hmatched hok (List.nil_append _).symm
          fun _ hmem ↦ absurd hmem List.not_mem_nil
  · cases hs

theorem InFlight.used (h : s.InFlight blk sector req target) :
    blk.readUsedIdx s.ram = s.counter := by
  cases h with
  | idle hopen | walking hopen | serving hopen => exact hopen.1.2.index
  | answered hpublished => exact hpublished.2.index
  | returning hsettled => exact hsettled.2.2.index

theorem InFlight.withDriver (h : s.InFlight blk sector req target) (driver : Phase) :
    { s with driver := driver }.InFlight blk sector req target := by
  cases h with
  | idle hopen hprepared hdevice hentry => exact .idle hopen hprepared hdevice hentry
  | walking hopen hprepared hk hdevice => exact .walking hopen hprepared hk hdevice
  | serving hopen hdevice hheader => exact .serving hopen hdevice hheader
  | answered hpublished hdevice hanswered => exact .answered hpublished hdevice hanswered
  | returning hsettled hanswered => exact .returning hsettled hanswered

theorem Stage.driverStep (h : s.Stage blk sector s.driver) (hs : s.driverStep blk = some s') :
    s'.Stage blk sector s'.driver := by
  unfold Exchange.driverStep at hs
  generalize hdriver : s.driver = driver at h hs
  cases h with
  | idle => cases hs
  | @writing req done rest hsettled hmatched hok hall hdone =>
    cases rest with
    | nil =>
      cases hs
      rw [List.append_nil] at hall
      exact .readingIdx ⟨hsettled, hmatched, hok, fun store hmem ↦ hdone store (hall ▸ hmem)⟩
    | cons store rest =>
      cases hs
      have hapart := blk.requestStores_apart req
      rw [hall, List.pairwise_append] at hapart
      have hpart : store.part ≠ .used ∧ store.part ≠ .avail := by
        have hmem : store ∈ blk.requestStores req := by simp [hall]
        rcases requestStores_part hmem with h | h | h <;> rw [h] <;> decide
      refine .writing (hsettled.put hpart.1 (.inl hpart.2) _) hmatched hok
        (hall.trans (List.append_cons ..)) fun store' hmem ↦ ?_
      rcases List.mem_append.mp hmem with hmem | hmem
      · exact (hdone store' hmem).put (hapart.2.2 store' hmem store List.mem_cons_self).symm
      · rw [List.mem_singleton.mp hmem]
        exact holds_put ..
  | readingIdx hready =>
    cases hs
    have hindex : blk.readAvailIdx s.ram = s.counter := hready.1.2.1.index
    rw [hindex]
    exact .writingEntry hready
  | writingEntry hready =>
    obtain ⟨hsettled, hmatched, hok, hprepared⟩ := hready
    cases hs
    have hne : (blk.writeAvailRingEntry s.counter 0).part ≠ .used := show Part.avail ≠ _ from nofun
    exact .writingIdx ⟨hsettled.put hne (.inr (Nat.le_add_right ..)) _, hmatched, hok,
      hprepared.put rfl⟩ (holds_put ..)
  | writingIdx hready hentry =>
    obtain ⟨⟨hdevice, -, hused⟩, hmatched, hok, hprepared⟩ := hready
    cases hs
    refine .notifying (.idle ⟨⟨holds_put .., hused.put (.inl nofun)⟩, hmatched, hok⟩
      (hprepared.put rfl) hdevice (hentry.put (.inr (.inl ?_))))
    simp [writeAvailIdx, writeAvailRingEntry, length_leBytes]
  | notifying hflight =>
    cases hs
    exact .waiting (hflight.withDriver _)
  | @waiting req target hflight =>
    simp only [hflight.used] at hs
    split at hs
    · cases hs
      rw [hdriver]
      exact .waiting hflight
    · rename_i htarget
      cases hs
      cases hflight with
      | returning hsettled hanswered => exact .readingStatus hsettled hanswered
      | _ => exact absurd (succ_ne _) htarget
  | readingStatus hsettled hanswered =>
    obtain ⟨hok, served, hlast, hmatched, hgood⟩ := hanswered
    have hfinish := hmatched.finish (s.ram (blk.addr .status)) hok
    simp only at hs
    split at hs
    · rename_i hbad
      cases hs
      rw [answer, if_neg hbad, ← hlast] at hfinish
      exact .idle hsettled hfinish
    · rename_i hzero
      cases hs
      exact .copying hsettled ⟨hok, served, hlast, hmatched, hgood⟩ (not_not.mp hzero)
  | copying hsettled hanswered hstatus =>
    obtain ⟨hok, served, hlast, hmatched, hgood⟩ := hanswered
    cases hs
    have hfinish := hmatched.finish (s.ram (blk.addr .status)) hok
    rw [answer, if_pos hstatus, ← hlast, ← hgood hstatus] at hfinish
    exact .idle hsettled hfinish

/-- What a move of the device may write: the data buffer and the status byte, and the used ring when
it posts an answer. -/
def Allowed (move : Move) (store : Store) : Prop :=
  store.part = .data ∨ store.part = .status ∧ store.offset + store.bytes.length ≤ 1 ∨
    store.part = .used ∧ (move = .complete ∨ ∃ len, move = .post len)

def Writes (blk : VirtioBlk) (s : Exchange) (move : Move) (s' : Exchange) : Prop :=
  s'.ram = s.ram ∨ ∃ store, s'.ram = blk.put s.ram store ∧ Allowed move store

theorem Published.put (hpart : store.part = .data ∨ store.part = .status) (h : s.Published blk) :
    { s with ram := blk.put s.ram store }.Published blk := by
  have hne : store.part ≠ .avail ∧ store.part ≠ .used := by
    rcases hpart with hpart | hpart <;> rw [hpart] <;> decide
  exact ⟨h.1.put (.inl hne.1), h.2.put (.inl hne.2)⟩

theorem store_of_writable {addr : ℕ} (value : UInt8) (hok : blk.check req = .ok ())
    (h : addr ∈ writable (blk.chain req)) : ∃ store : Store,
      s.ram.store addr [value] = blk.put s.ram store ∧ (store.part = .data ∨
        store.part = .status ∧ store.offset + store.bytes.length ≤ 1) := by
  have hle := (of_check hok).2
  rw [writable_chain, List.mem_append, List.mem_map] at h
  rcases h with ⟨i, hi, rfl⟩ | h
  · rw [List.mem_range] at hi
    exact ⟨⟨.data, i, [value], by simp; omega⟩, rfl, .inl rfl⟩
  · rw [List.mem_singleton.mp h]
    exact ⟨.mk .status 0 [value], rfl, .inr ⟨rfl, le_rfl⟩⟩

theorem InFlight.walk {k : ℕ} (hopen : s.Open blk sector req)
    (hprepared : blk.Prepared s.ram req) (hk : k < 3)
    (hdevice : s.device = .walking 0 (UInt16.ofNat k) ((blk.chain req).take k))
    (hs : s.deviceStep blk sector move = some s') :
    s'.InFlight blk sector req (s'.counter + 1) ∧ s'.counter = s.counter ∧ s'.ram = s.ram := by
  have hdescs := hprepared.descriptors hopen.2.2
  simp only [List.map_cons, List.map_nil, chain, List.cons.injEq] at hdescs
  obtain ⟨h₀, h₁, h₂, -⟩ := hdescs
  cases move <;> simp only [deviceStep, hdevice, reduceCtorEq] at hs
  have hcases : k = 0 ∨ k = 1 ∨ k = 2 := by omega
  rcases hcases with rfl | rfl | rfl
  · rw [show (UInt16.ofNat 0).toNat = 0 from rfl, h₀, if_pos (by exact flags_hasNext.1)] at hs
    cases hs
    exact ⟨.walking (k := 1) hopen hprepared (by decide) rfl, rfl, rfl⟩
  · rw [show (UInt16.ofNat 1).toNat = 1 from rfl, h₁, if_pos (by exact flags_hasNext.2.1)] at hs
    cases hs
    exact ⟨.walking (k := 2) hopen hprepared (by decide) rfl, rfl, rfl⟩
  · rw [show (UInt16.ofNat 2).toNat = 2 from rfl, h₂,
      if_neg (by exact flags_hasNext.2.2)] at hs
    cases hs
    exact ⟨.serving hopen rfl fun store hmem ↦ hprepared store (List.mem_of_mem_take hmem), rfl, rfl⟩

theorem InFlight.serve (hopen : s.Open blk sector req)
    (hdevice : s.device = .serving 0 (blk.chain req))
    (hheader : ∀ store ∈ (blk.requestStores req).take 3, blk.Holds s.ram store)
    (hs : s.deviceStep blk sector move = some s') :
    s'.InFlight blk sector req (s'.counter + 1) ∧ s'.counter = s.counter ∧ s.Writes blk move s' := by
  obtain ⟨hpublished, hmatched, hok⟩ := hopen
  cases move <;> simp only [deviceStep, hdevice, reduceCtorEq] at hs
  case write addr value =>
    split at hs
    · rename_i hmem
      obtain ⟨store, hram, hpart⟩ := store_of_writable (s := s) value hok hmem
      cases hs
      rw [show s.deviceRam blk (.write addr value) = _ from hram]
      have hpart' : store.part = .data ∨ store.part = .status := hpart.imp_right And.left
      exact ⟨.serving ⟨hpublished.put hpart', hmatched, hok⟩ rfl
        (header_put hpart' hheader), rfl, .inr ⟨store, rfl, hpart.imp_right .inl⟩⟩
    · cases hs
  case answer status =>
    have hlast : (writable (blk.chain req)).getLast? = some (blk.addr .status) := by
      rw [writable_chain, List.getLast?_concat]
    have hram : s.deviceRam blk (.answer status) = blk.put s.ram (.mk .status 0 [status]) := by
      simp only [deviceRam, deviceStore, hdevice, hlast, Option.map_some]
      rfl
    have hbyte : blk.put s.ram (.mk .status 0 [status]) (blk.addr .status) = status := by
      simp [put, ByteMemory.store]
    obtain ⟨-, hrequest⟩ := chainRequest_chain hheader
    have hle := (of_check hok).2
    split at hs
    · cases hs
    · split at hs
      · rename_i hmay
        cases hs
        rw [hram, hrequest]
        refine ⟨.answered (hpublished.put (.inr rfl)) (.inl rfl) ⟨hok, s.served, ?_, hmatched,
          fun hzero ↦ ?_⟩, rfl, .inr ⟨_, rfl, .inr (.inl ⟨rfl, le_rfl⟩)⟩⟩
        · exact congrArg (fun status ↦ _ ++ [(req, status)]) hbyte.symm
        · rw [mayAnswer, hrequest, writable_chain, List.dropLast_concat] at hmay
          simp only [hbyte.symm.trans hzero, ne_eq, not_true_eq_false, decide_false, Bool.false_or,
            Bool.and_eq_true, decide_eq_true_eq, List.map_map] at hmay
          refine (ByteMemory.slice_congr fun i hi ↦ ?_).trans hmay.2
          exact put_other (show Part.status ≠ .data by decide) (by omega)
      · cases hs

theorem InFlight.deviceStep (h : s.InFlight blk sector req target)
    (hs : s.deviceStep blk sector move = some s') :
    s'.InFlight blk sector req target ∧ s.Writes blk move s' := by
  cases h with
  | idle hopen hprepared hdevice hentry =>
    cases move <;> simp only [deviceStep, hdevice, reduceCtorEq] at hs
    split at hs
    · cases hs
      rw [show blk.addr .avail + _ = _ from rfl, hentry.index]
      exact ⟨.walking (k := 0) hopen hprepared (by decide) rfl, .inl rfl⟩
    · cases hs
  | walking hopen hprepared hk hdevice =>
    obtain ⟨hflight, hcounter, hram⟩ := walk hopen hprepared hk hdevice hs
    exact ⟨hcounter ▸ hflight, .inl hram⟩
  | serving hopen hdevice hheader =>
    obtain ⟨hflight, hcounter, hwrites⟩ := serve hopen hdevice hheader hs
    exact ⟨hcounter ▸ hflight, hwrites⟩
  | answered hpublished hdevice hanswered =>
    rcases hdevice with hdevice | hdevice <;> cases move <;>
      simp only [deviceStep, hdevice, reduceCtorEq] at hs
    case post len =>
      cases hs
      have hslot := blk.slot_lt s.counter
      let store : Store := ⟨.used, 4 + blk.slot s.counter * 8, leBytes 4 0 ++ leBytes 4 len, by
        simp only [List.length_append, length_leBytes]; omega⟩
      have hram : s.deviceRam blk (.post len) = blk.put s.ram store := by
        simp only [deviceRam, deviceStore, hdevice]
        rfl
      have hapart : store.Apart (usedIdx s.counter) := by
        refine .inr (.inr ?_)
        simp only [store, usedIdx, length_leBytes]
        omega
      rw [hram]
      exact ⟨.answered ⟨hpublished.1.put (.inl nofun), hpublished.2.put hapart⟩ (.inr rfl)
        (hanswered.put rfl ..), .inr ⟨store, rfl, .inr (.inr ⟨rfl, .inr ⟨len, rfl⟩⟩)⟩⟩
    case complete =>
      cases hs
      have hram : s.deviceRam blk .complete = blk.put s.ram (usedIdx (s.counter + 1)) := rfl
      rw [hram]
      have hne : (usedIdx (s.counter + 1)).part ≠ .avail := show Part.used ≠ _ from nofun
      exact ⟨.returning ⟨rfl, hpublished.1.put (.inl hne), holds_put ..⟩
        (hanswered.put rfl ..), .inr ⟨_, rfl, .inr (.inr ⟨rfl, .inl rfl⟩)⟩⟩
  | returning hsettled =>
    rw [hsettled.still] at hs
    cases hs

theorem driver_deviceStep (hs : s.deviceStep blk sector move = some s') : s'.driver = s.driver := by
  unfold deviceStep at hs
  grind

theorem Stage.deviceStep (h : s.Stage blk sector s.driver)
    (hs : s.deviceStep blk sector move = some s') :
    s'.Stage blk sector s'.driver ∧ s.Writes blk move s' := by
  rw [driver_deviceStep hs]
  generalize s.driver = driver at h
  cases h with
  | notifying hflight =>
    obtain ⟨hflight', hwrites⟩ := hflight.deviceStep hs
    exact ⟨.notifying hflight', hwrites⟩
  | waiting hflight =>
    obtain ⟨hflight', hwrites⟩ := hflight.deviceStep hs
    exact ⟨.waiting hflight', hwrites⟩
  | idle hsettled | writing hsettled | readingStatus hsettled | copying hsettled =>
    rw [hsettled.still] at hs
    cases hs
  | readingIdx hready | writingEntry hready | writingIdx hready =>
    rw [hready.1.still] at hs
    cases hs

theorem Stage.next (h : s.Stage blk sector s.driver) (hs : s.next blk sector move = some s') :
    s'.Stage blk sector s'.driver := by
  cases move with
  | call req => exact h.call hs
  | driver => exact h.driverStep hs
  | _ => exact (h.deviceStep hs).1

theorem zero_foldl (blk : VirtioBlk) (ram : ByteMemory) {part : Part} {parts : List Part}
    (h : part ∈ parts ∨ ∀ i < 4096, ram (blk.addr part + i) = 0) : ∀ i < 4096,
      parts.foldl (fun ram part ↦ blk.put ram
        ⟨part, 0, List.replicate 4096 0, by rw [List.length_replicate]⟩) ram
        (blk.addr part + i) = 0 := by
  induction parts generalizing ram with
  | nil => exact h.resolve_left List.not_mem_nil
  | cons first parts ih =>
    refine ih _ ?_
    by_cases hfirst : first = part
    · refine .inr fun i hi ↦ ?_
      rw [hfirst]
      change ram.store (blk.addr part) _ _ = 0
      rw [ByteMemory.store, if_pos (Nat.le_add_right ..), Nat.add_sub_cancel_left,
        List.getElem?_replicate, if_pos hi, Option.getD_some]
    · rcases h with h | h
      · exact .inl ((List.mem_cons.mp h).resolve_left (Ne.symm hfirst))
      · exact .inr fun i hi ↦ (put_other hfirst hi).trans (h i hi)

theorem Stage.init (ram : ByteMemory) : (init blk ram).Stage blk sector (init blk ram).driver := by
  have hzero : ∀ store : Store, store.part = .avail ∨ store.part = .used → store.offset = 2 →
      store.bytes = [0, 0] → blk.Holds (Exchange.init blk ram).ram store := by
    intro store hpart hoffset hbytes
    have hmem : store.part ∈ [Part.desc, .avail, .used, .header, .data, .status] := by
      rcases hpart with h | h <;> rw [h] <;> decide
    have hall := zero_foldl blk ram (.inl hmem)
    refine VirtioBlk.Holds.put (.inr (.inl (by simp [hoffset, length_leBytes]))) ?_
    simp only [VirtioBlk.Holds, hbytes, hoffset, ByteMemory.slice, List.length_cons, List.length_nil,
      List.range_succ, List.range_zero, List.nil_append, List.cons_append, List.map_cons,
      List.map_nil, Nat.add_assoc, Nat.reduceAdd, hall 2 (by decide), hall 3 (by decide)]
  have hbytes : leBytes 2 (0 : UInt16).toNat = [0, 0] := by decide
  exact .idle ⟨rfl, hzero _ (.inl rfl) rfl hbytes, hzero _ (.inr rfl) rfl hbytes⟩
    ⟨rfl, fun _ hr ↦ absurd hr List.not_mem_nil⟩

def rank (s : Exchange) : ℕ :=
  match s.driver with
  | .idle => 0
  | .copying _ => 1
  | .readingStatus _ => 2
  | .waiting _ target =>
    if s.counter = target then 3
    else match s.device with
    | .idle => 10
    | .walking _ _ chain => 9 - chain.length
    | .serving _ _ => 6
    | .answered _ => 5
    | .posted => 4
  | .notifying _ _ => 11
  | .writingIdx _ _ => 12
  | .writingEntry _ _ => 13
  | .readingIdx _ => 14
  | .writing _ rest => 15 + rest.length

theorem Stage.progress (h : s.Stage blk sector s.driver) : s.driver = .idle ∨
    ∃ move s', s.next blk sector move = some s' ∧ s'.rank < s.rank := by
  generalize hdriver : s.driver = driver at h
  cases h with
  | idle => exact .inl rfl
  | @writing req done rest =>
    refine .inr ⟨.driver, ?_⟩
    cases rest <;> simp [Exchange.next, Exchange.driverStep, hdriver, rank]
  | readingIdx | writingEntry | writingIdx | copying =>
    exact .inr ⟨.driver, by simp [Exchange.next, Exchange.driverStep, hdriver, rank, finish]⟩
  | notifying =>
    refine .inr ⟨.driver, _, by simp only [Exchange.next, Exchange.driverStep, hdriver]; rfl, ?_⟩
    simp only [rank, hdriver]
    split
    · decide
    · split <;> omega
  | readingStatus =>
    refine .inr ⟨.driver, ?_⟩
    simp only [Exchange.next, Exchange.driverStep, hdriver]
    split <;> exact ⟨_, rfl, by simp [rank, hdriver, finish]⟩
  | @waiting req target hflight =>
    refine .inr ?_
    cases hflight with
    | idle hopen _ hdevice =>
      have hindex : blk.readAvailIdx s.ram = s.counter + 1 := hopen.1.1.index
      refine ⟨.fetch, ?_⟩
      simp [Exchange.next, Exchange.deviceStep, hdriver, hdevice, hindex, rank,
        (succ_ne s.counter).symm]
    | walking _ _ hk hdevice =>
      refine ⟨.walk, ?_⟩
      simp only [Exchange.next, Exchange.deviceStep, hdevice]
      split <;> refine ⟨_, rfl, ?_⟩ <;> simp [rank, hdriver, hdevice, chain] <;> omega
    | serving _ hdevice =>
      refine ⟨.answer 1, ?_⟩
      have hmay : mayAnswer sector s.ram (blk.chain req) 1 = true := by simp [mayAnswer, virtioBlkSOk]
      simp [Exchange.next, Exchange.deviceStep, hdriver, hdevice, rank, writable_chain, hmay]
    | answered _ hdevice =>
      rcases hdevice with hdevice | hdevice
      · exact ⟨.post 0, by simp [Exchange.next, Exchange.deviceStep, hdriver, hdevice, rank]⟩
      · exact ⟨.complete, by simp [Exchange.next, Exchange.deviceStep, hdriver, hdevice, rank]⟩
    | returning hsettled =>
      have hindex : blk.readUsedIdx s.ram = s.counter := hsettled.2.2.index
      refine ⟨.driver, ?_⟩
      simp [Exchange.next, Exchange.driverStep, hdriver, hindex, rank]

theorem Stage.returns (h : s.Stage blk sector s.driver) :
    ∃ t, Reach (Exchange.next blk sector) (fun _ _ ↦ True) s t ∧ t.driver = .idle := by
  induction hrank : s.rank using Nat.strong_induction_on generalizing s with
  | _ n ih =>
    rcases h.progress with hidle | ⟨move, s', hs, hlt⟩
    · exact ⟨s, .refl, hidle⟩
    · obtain ⟨t, hreach, hidle⟩ := ih s'.rank (hrank ▸ hlt) (h.next hs) rfl
      exact ⟨t, (Reach.one trivial hs).trans hreach, hidle⟩

theorem Writes.bytes (h : s.Writes blk move s') {a : ℕ} (ha : s'.ram a ≠ s.ram a) :
    (∃ i < dataBufferSize, a = blk.addr .data + i) ∨ a = blk.addr .status ∨
      (move = .complete ∨ ∃ len, move = .post len) ∧ ∃ i < 4096, a = blk.addr .used + i := by
  rcases h with hram | ⟨store, hram, hallowed⟩
  · exact absurd (congrFun hram a) ha
  · rw [hram] at ha
    obtain ⟨i, hi, rfl, hlt⟩ := of_put_ne ha
    rcases hallowed with hpart | ⟨hpart, hle⟩ | ⟨hpart, hmove⟩ <;> rw [hpart]
    · exact .inl ⟨i, hi, rfl⟩
    · exact .inr (.inl (by omega))
    · exact .inr (.inr ⟨hmove, i, hi, rfl⟩)

end Exchange

end Tarnos.Driver
