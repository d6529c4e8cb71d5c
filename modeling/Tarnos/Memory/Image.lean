import Tarnos.Memory.Virt

namespace Tarnos.Memory

variable {W : ℕ} {place : ℕ → Option (PhysFrame × ℕ)} {ram ram₁ ram₂ : Ram W} {start : ℕ}
  {data : List UInt8}

/-- Through a translation of addresses, memory reads back as `data` from `start` on, and it is
otherwise what it was. -/
structure Copied (place : ℕ → Option (PhysFrame × ℕ)) (ram ram' : Ram W) (start : ℕ)
    (data : List UInt8) : Prop where
  reads : ∀ k byte, data[k]? = some byte →
    ∃ spot, place (start + k) = some spot ∧ ram'.bytes spot.1 spot.2 = byte
  others : ∀ f i, (∀ k < data.length, place (start + k) ≠ some (f, i)) →
    ram'.bytes f i = ram.bytes f i
  allocator : ram'.allocator = ram.allocator

namespace Copied

theorem nil (place : ℕ → Option (PhysFrame × ℕ)) (ram : Ram W) (start : ℕ) :
    Copied place ram ram start [] :=
  ⟨fun k byte h ↦ (by cases h), fun _ _ _ ↦ rfl, rfl⟩

theorem write {frame : PhysFrame} {offset : ℕ}
    (h : ∀ k < data.length, place (start + k) = some (frame, offset + k)) :
    Copied place ram (ram.write frame offset data) start data := by
  refine ⟨fun k byte hbyte ↦ ?_, fun f i hother ↦ ?_, rfl⟩
  · have hk : k < data.length := (List.getElem?_eq_some_iff.mp hbyte).1
    exact ⟨_, h k hk, Ram.bytes_write_of_mem hbyte⟩
  · apply Ram.bytes_write_of_ne
    intro k hk heq
    exact hother k hk (by rw [h k hk, heq])

theorem append {first second : List UInt8} (h : Copied place ram ram₁ start first)
    (h' : Copied place ram₁ ram₂ (start + first.length) second)
    (hdisjoint : ∀ k < first.length, ∀ j < second.length,
      place (start + k) ≠ place (start + first.length + j)) :
    Copied place ram ram₂ start (first ++ second) := by
  refine ⟨fun k byte hbyte ↦ ?_, fun f i hother ↦ ?_, h'.allocator.trans h.allocator⟩
  · by_cases hk : k < first.length
    · rw [List.getElem?_append_left hk] at hbyte
      obtain ⟨spot, hspot, hread⟩ := h.reads k byte hbyte
      refine ⟨spot, hspot, ?_⟩
      rw [h'.others, hread]
      intro j hj hsame
      exact hdisjoint k hk j hj (hspot.trans hsame.symm)
    · have hle := Nat.not_lt.mp hk
      rw [List.getElem?_append_right hle] at hbyte
      obtain ⟨spot, hspot, hread⟩ := h'.reads (k - first.length) byte hbyte
      rw [show start + first.length + (k - first.length) = start + k by omega] at hspot
      exact ⟨spot, hspot, hread⟩
  · rw [h'.others f i, h.others f i]
    · intro k hk
      apply hother k
      rw [List.length_append]
      omega
    · intro j hj
      have hfar := hother (first.length + j) (by rw [List.length_append]; omega)
      rwa [← Nat.add_assoc] at hfar

end Copied

end Tarnos.Memory
