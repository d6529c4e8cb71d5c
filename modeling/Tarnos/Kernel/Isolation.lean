import Tarnos.Kernel.UserReads
import Tarnos.Memory.Tenancy

namespace Tarnos.Memory

open Arch Foundation Foundation.Transition Fs.Fat12Volume Kernel.UserReads Tarnos.Task AddressSpace

variable {space : AddressSpace} {n : ℕ} {leaf : Leaf} {spot : PhysFrame × ℕ}

theorem translatePage_of_leaves (h : space.leaves n = some leaf) :
    ∃ page : Page, page.number = n ∧ space.translatePage page = some leaf.frame := by
  obtain ⟨huser, hmap⟩ := Option.dite_none_right_eq_some.mp h
  obtain ⟨x, hentry, rfl⟩ := Option.map_eq_some_iff.mp hmap
  exact ⟨⟨n, huser⟩, rfl, by rw [translatePage_eq, hentry, Option.map_some]⟩

theorem mem_owned_of_place (h : space.leaves.place n = some spot) : spot.1 ∈ space.owned := by
  obtain ⟨leaf, hleaf, rfl⟩ := Option.map_eq_some_iff.mp h
  obtain ⟨_, -, hpage⟩ := translatePage_of_leaves hleaf
  exact mem_owned hpage

theorem leaves_distinct (hnodup : space.owned.Nodup) : space.leaves.Distinct := by
  intro p q leaf leaf' hp hq _ _ hframe
  obtain ⟨page, rfl, hpage⟩ := translatePage_of_leaves hp
  obtain ⟨page', rfl, hpage'⟩ := translatePage_of_leaves hq
  rw [hframe] at hpage
  have hpath := Trie.path_unique (Multiset.nodup_cons.mp hnodup).2 hpage hpage'
  exact congrArg Page.number (Page.agree_zero_iff.mp fun j _ hj ↦ hpath j (by omega))

namespace Tenancy

/-- No byte is at an address of two processes. -/
theorem place_ne {W : ℕ} {s : Tenancy W} {i a b : ℕ} {heap heap' : Heap}
    (hs : Ordered s.ram s.owned) (hi : s.heaps[i]? = some heap) (hother : heap' ∈ s.heaps.eraseIdx i)
    (hb : heap'.space.leaves.place b = some spot) : heap.space.leaves.place a ≠ some spot := by
  intro ha
  have hnodup := (Multiset.nodup_add.mp hs.nodup).2.1
  obtain ⟨k, hk⟩ := List.mem_iff_getElem?.mp hother
  rw [owned_eq hi, owned_eq (s := ⟨s.ram, s.heaps.eraseIdx i⟩) hk] at hnodup
  exact Multiset.disjoint_left.mp (Multiset.nodup_add.mp hnodup).2.2 (mem_owned_of_place ha)
    (Multiset.mem_add.mpr (.inl (mem_owned_of_place hb)))

/-- After any run no byte of memory is at two addresses, of one process or of two. So each process's
tables meet what reading into them requires, and a read by one process changes nothing that another
one sees. -/
theorem tenants_isolated [Mapper] {E σ : Type} [DecidableEq E] (entries : List Entry)
    (c : Custody bitmapWords) (hc : Reach Custody.next Custody.Returns (Custody.start entries) c)
    (bytes : PhysFrame → ℕ → UInt8) (actions : List Action) (t : Tenancy bitmapWords)
    (h : run next (vacant c.allocator bytes) actions = some t) (i : ℕ) (heap : Heap)
    (hi : t.heaps[i]? = some heap) : heap.space.leaves.Distinct ∧
      ∀ heap' ∈ t.heaps.eraseIdx i, ∀ address spot, heap'.space.leaves.place address = some spot →
        (∀ a, heap.space.leaves.place a ≠ some spot) ∧
        ∀ (process : Option (Process E)) (f : TrapFrame) (x : σ),
          (∀ device, (sysBlockRead process heap.space.leaves device f x t.ram).2.2.bytes
            spot.1 spot.2 = t.ram.bytes spot.1 spot.2) ∧
          ∀ root size (room : Foundation.Heap size),
            (sysFileRead process heap.space.leaves root room f x t.ram).2.2.bytes
            spot.1 spot.2 = t.ram.bytes spot.1 spot.2 := by
  have hstart := vacant_ordered (Custody.free_subset_pool hc) bytes
  have hend := (run_spends hstart h).ordered hstart
  have hdistinct := leaves_distinct
    (Multiset.nodup_add.mp (ordered_of_getElem? hend hi).nodup).2.1
  refine ⟨hdistinct, fun heap' hother address spot hspot ↦ ?_⟩
  have hne := fun a ↦ place_ne hend hi hother (a := a) hspot
  have hkept {ptr obtained} {out : _ × σ × _} (hout : Ends heap.space.leaves t.ram ptr obtained out) :
      out.2.2.bytes spot.1 spot.2 = t.ram.bytes spot.1 spot.2 := by
    cases hout with
    | fails | panics => rfl
    | copies _ hcopied => exact hcopied.others _ _ fun k _ ↦ hne _
  exact ⟨hne, fun process f x ↦ ⟨fun device ↦ hkept (sysBlockRead_ends hdistinct),
    fun root _ room ↦ hkept (sysFileRead_ends hdistinct)⟩⟩

theorem stack_place {W : ℕ} {space space' : AddressSpace} {ram ram' : Ram W}
    (h : mapPages false stackFlags stackPages space ram = (.ok (), space', ram')) :
    ∃ frame, space'.leaves 0x7fffffffb = some ⟨frame, true, true, true⟩ ∧
      space'.leaves.place 0x7fffffffb000 = some (frame, 0) := by
  have hpage : Page.containingAddress 0x7fffffffb000 ∈ stackPages := by decide +kernel
  obtain ⟨frame, hentry, -⟩ := (backs_of_mapPages h).fresh _ hpage
  have hleaf : space'.leaves 0x7fffffffb = some ⟨frame, true, true, true⟩ :=
    leaves_of_entry hentry
  refine ⟨frame, hleaf, ?_⟩
  rw [Leaves.place, show 0x7fffffffb000 / 4096 = 0x7fffffffb from rfl, hleaf]
  rfl

def readToStack : TrapFrame := { readA with r8 := 0x7fffffffb000 }

theorem tenants_isolated_pair : ∃ ram ram' heap heap' frame frame',
    run next ⟨Growth.framesFrom 16, []⟩ [.create (image []), .create (image [])] =
        some ⟨ram, [heap, heap']⟩ ∧
      heap.space.leaves.place 0x7fffffffb000 = some (frame, 0) ∧
      heap'.space.leaves.place 0x7fffffffb000 = some (frame', 0) ∧ frame ≠ frame' ∧
      sysFileRead (some reader) heap.space.leaves (some (diskVolume 1, shortDriver)) kernelHeap
        readToStack () ram = (.ok 512, (), ram') ∧
      ram'.bytes frame 0 = 3 ∧ ram'.bytes frame' 0 = ram.bytes frame' 0 := by
  obtain ⟨_, _, heap', mid, -, -, hmaps', hcreated', hcard⟩ :=
    fromElf_plain (n := 8) (Growth.card_framesFrom (n := 16) (by decide))
  obtain ⟨_, _, heap, ram, -, -, hmaps, hcreated, -⟩ := fromElf_plain (n := 0) hcard
  have hrun : run next ⟨Growth.framesFrom 16, []⟩ [.create (image []), .create (image [])] =
      some ⟨ram, [heap, heap']⟩ := by
    rw [run, next, hcreated', Option.bind_some, run, next, hcreated]
    rfl
  obtain ⟨frame, hleaf, hplace⟩ := stack_place hmaps
  obtain ⟨frame', -, hplace'⟩ := stack_place hmaps'
  have hstart := hrun
  rw [framesFrom_eq] at hstart
  obtain ⟨hdistinct, hothers⟩ :=
    tenants_isolated (E := Unit) (σ := Unit) _ _ .refl _ _ _ hstart 0 heap rfl
  obtain ⟨hne, hkeeps⟩ := hothers heap' List.mem_cons_self _ _ hplace'
  have hresolve : Kernel.resolveDevice reader ⟨readToStack.rdi.toUInt32⟩ .fsRoot = .ok () := by decide
  have hname : Abi.unpackShortName readToStack.rsi readToStack.rdx readToStack.r10 = some [0x41] := by
    decide +kernel
  have hvalid : ∃ stop, validateWriteRange heap.space.leaves readToStack.r8 readToStack.r9 = .ok stop :=
    valid_of_leaf rfl (by decide) hleaf rfl
  obtain ⟨ram', hcall, hcopied⟩ := sysFileRead_of_readFile hdistinct hname hresolve hvalid
    readFile_shortDisk ram
  have hkept := (hkeeps (some reader) readToStack ()).2 (some (diskVolume 1, shortDriver)) _
    kernelHeap
  rw [List.length_replicate] at hcall
  refine ⟨ram, ram', heap, heap', frame, frame', hrun, hplace, hplace', ?_, hcall, ?_, ?_⟩
  · rintro rfl
    exact hne _ hplace
  · obtain ⟨spot, hspot, hbyte⟩ := hcopied.reads 0 3 (by decide +kernel)
    have heq : spot = (frame, 0) := Option.some.inj (hspot.symm.trans hplace)
    rwa [heq] at hbyte
  · have hcall' := congrArg (fun out ↦ out.2.2.bytes frame' 0) hcall
    exact hcall'.symm.trans hkept

end Tenancy

end Tarnos.Memory
