import Tarnos.Fs.Fat
import Tarnos.Rt.Syscall

namespace Tarnos.Fs.Fat12Volume

open Abi Arch Driver

theorem length_le_splitName (name : List UInt8) :
    name.length ≤ (splitName name).1.length + (splitName name).2.length + 1 := by
  simp only [splitName]
  split
  · dsimp only
    rw [List.length_take]
    omega
  · simp

theorem to83Name_of_length_lt {name : List UInt8} (h : 12 < name.length) : to83Name name = none := by
  have hsplit := length_le_splitName name
  have hlong : 8 < (splitName name).1.length ∨ 3 < (splitName name).2.length := by omega
  simp only [to83Name]
  exact if_pos (.inr (by tauto))

theorem to83Name_invalidUtf8 : to83Name invalidUtf8 = none :=
  to83Name_of_length_lt (by decide +kernel)

theorem validateUTF8_toUTF8 (name : String) :
    (ByteArray.mk name.toUTF8.data.toList.toArray).validateUTF8 = true := by
  rw [Array.toArray_toList]
  exact ByteArray.validateUTF8_eq_true_iff.2 (String.toUTF8_eq_toByteArray ▸ name.isValidUTF8)

/-- The kernel looks for the file the program named, or refuses the name as it would have refused the
whole of it: only names too long for an 8.3 form are cut on the way. -/
theorem to83Name_sysFileRead (name : String) (cap : CapIndex) (buf bufLen : UInt64) (f : TrapFrame) :
    (unpackShortName (Rt.sysFileRead cap name buf bufLen f).rsi
      (Rt.sysFileRead cap name buf bufLen f).rdx (Rt.sysFileRead cap name buf bufLen f).r10).map
      to83Name = some (to83Name name.toUTF8.data.toList) := by
  change (unpackShortName (packShortName name.toUTF8.data.toList).1
    (packShortName name.toUTF8.data.toList).2.1 (packShortName name.toUTF8.data.toList).2.2).map _ = _
  rw [unpackShortName_packShortName, Option.map_some, Option.some_inj, lossy]
  by_cases hlen : name.toUTF8.data.toList.length ≤ shortNameMax
  · rw [List.take_of_length_le hlen, if_pos (validateUTF8_toUTF8 name)]
  · have hcut : 12 < (name.toUTF8.data.toList.take shortNameMax).length := by
      rw [List.length_take, Nat.min_eq_left (Nat.le_of_not_le hlen)]
      decide
    have hname : 12 < name.toUTF8.data.toList.length :=
      hcut.trans_le (List.length_take_le' _ _)
    rw [to83Name_of_length_lt hname]
    split
    · exact to83Name_of_length_lt hcut
    · exact to83Name_invalidUtf8

end Tarnos.Fs.Fat12Volume
