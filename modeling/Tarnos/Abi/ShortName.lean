import Tarnos.Abi
import Tarnos.Foundation.Bytes

namespace Tarnos.Abi

open Foundation

/-- `u64::from_le_bytes`. -/
def fromLeBytes (bytes : List UInt8) : UInt64 := UInt64.ofNat (leNat bytes)

/-- The registers of a name: its bytes, cut after sixteen and padded with zeros, and how many they
are. -/
def packShortName (name : List UInt8) : UInt64 × UInt64 × UInt64 :=
  let len := min name.length shortNameMax
  let buf := (name.take len).rightpad shortNameMax 0
  (fromLeBytes (buf.take 8), fromLeBytes ((buf.drop 8).take 8), UInt64.ofNat len)

theorem toLeBytes_fromLeBytes {bytes : List UInt8} (h : bytes.length = 8) :
    toLeBytes (fromLeBytes bytes) = bytes := by
  apply List.ext_getElem
  · rw [toLeBytes, List.length_map, List.length_range, h]
  · intro i hi hi'
    have hlt : leNat bytes < 2 ^ 64 := by
      have := leNat_lt bytes
      rwa [h] at this
    rw [h] at hi'
    have hshift : (UInt64.ofNat (8 * i)).toNat % 64 = 8 * i := by
      rw [UInt64.toNat_ofNat']
      omega
    simp only [toLeBytes, List.getElem_map, List.getElem_range]
    rw [← UInt8.toNat_inj, UInt64.toNat_toUInt8, UInt64.toNat_shiftRight, hshift, fromLeBytes,
      UInt64.toNat_ofNat_of_lt' hlt, Nat.shiftRight_eq_div_pow, Nat.pow_mul, toNat_getElem]

theorem toLeBytes_words {k : ℕ} {buf : List UInt8} (h : buf.length = k * 8) :
    (List.ofFn fun i : Fin k ↦ fromLeBytes ((buf.drop (i * 8)).take 8)).flatMap toLeBytes = buf := by
  induction k generalizing buf with
  | zero =>
    rw [Nat.zero_mul, List.length_eq_zero_iff] at h
    rw [h]
    rfl
  | succ k ih =>
    have hrest : (buf.drop 8).length = k * 8 := by rw [List.length_drop]; omega
    have htail := ih hrest
    simp only [List.drop_drop] at htail
    rw [List.ofFn_succ, List.flatMap_cons, toLeBytes_fromLeBytes (by simp; omega)]
    simp only [Fin.val_succ, Fin.val_zero, Nat.zero_mul, List.drop_zero, Nat.succ_mul, Nat.add_comm _ 8]
    rw [htail, List.take_append_drop]

theorem take_rightpad (name : List UInt8) {cap : ℕ} (hcap : cap < 2 ^ 64) :
    ((name.take (min name.length cap)).rightpad cap 0).length = cap ∧
    ((name.take (min name.length cap)).rightpad cap 0).take
      (min (UInt64.ofNat (min name.length cap)).toNat cap) = name.take cap := by
  have hlen : (UInt64.ofNat (min name.length cap)).toNat = min name.length cap := by
    rw [UInt64.toNat_ofNat', Nat.mod_eq_of_lt]
    omega
  have htake : name.take (min name.length cap) = name.take cap := by
    rw [Nat.min_comm, ← List.take_take, List.take_length]
  rw [hlen, htake]
  constructor
  · rw [List.length_rightpad, List.length_take]
    omega
  · rw [List.rightpad, Nat.min_eq_left (Nat.min_le_right _ _), List.take_left' ?_]
    rw [List.length_take, Nat.min_comm]

theorem decode_rightpad (name : List UInt8) {cap : ℕ} (hcap : cap < 2 ^ 64) :
    decode ((name.take (min name.length cap)).rightpad cap 0)
      (UInt64.ofNat (min name.length cap)) = some (lossy (name.take cap)) := by
  obtain ⟨hlen, htake⟩ := take_rightpad name hcap
  rw [decode_eq, hlen, htake]

theorem unpackShortName_packShortName (name : List UInt8) :
    unpackShortName (packShortName name).1 (packShortName name).2.1 (packShortName name).2.2 =
      some (lossy (name.take shortNameMax)) := by
  have hcap : shortNameMax < 2 ^ 64 := by decide
  rw [← decode_rightpad name hcap, unpackShortName]
  exact congrArg (decode · _) (toLeBytes_words (k := 2) (take_rightpad name hcap).1)

def Message.fromStrLossy (s : List UInt8) : Message :=
  let len := min s.length (messageInlineWords * 8)
  let buf := (s.take len).rightpad (messageInlineWords * 8) 0
  ⟨UInt64.ofNat len, Vector.ofFn fun i ↦ fromLeBytes ((buf.drop (i * 8)).take 8)⟩

def Message.asStrLossy (m : Message) : Option (List UInt8) :=
  decode (m.words.toList.flatMap toLeBytes) m.tag

theorem Message.asStrLossy_fromStrLossy (s : List UInt8) :
    (fromStrLossy s).asStrLossy = some (lossy (s.take (messageInlineWords * 8))) := by
  have hcap : messageInlineWords * 8 < 2 ^ 64 := by decide
  rw [← decode_rightpad s hcap, asStrLossy]
  simp only [fromStrLossy, Vector.toList_ofFn, toLeBytes_words (take_rightpad s hcap).1]

/-- What a decoder should return for a string that was packed into `n` bytes: all of it, or what
comes before a character boundary there, or the placeholder. -/
inductive Cut (n : ℕ) (s : String) : List UInt8 → Prop
  | whole (hfits : s.utf8ByteSize ≤ n) : Cut n s s.toUTF8.data.toList
  | boundary {t u : String} (hlong : n < s.utf8ByteSize) (hs : s = t ++ u)
      (ht : t.utf8ByteSize = n) : Cut n s t.toUTF8.data.toList
  | inside (hlong : n < s.utf8ByteSize) (hs : ∀ t u : String, s = t ++ u → t.utf8ByteSize ≠ n) :
      Cut n s invalidUtf8

theorem validateUTF8_take_iff {s : String} {n : ℕ} (h : n ≤ s.utf8ByteSize) :
    (ByteArray.mk (s.toUTF8.data.toList.take n).toArray).validateUTF8 = true ↔
      ∃ t u : String, s = t ++ u ∧ t.utf8ByteSize = n := by
  have hextract : ByteArray.mk (s.toUTF8.data.toList.take n).toArray = s.toByteArray.extract 0 n := by
    apply ByteArray.ext
    apply Array.toList_inj.mp
    rw [ByteArray.data_extract, Array.toList_extract, List.extract_eq_take_drop]
    rfl
  have hvalid := String.Pos.Raw.isValid_iff_isValidUTF8_extract_zero (s := s) (p := ⟨n⟩)
  rw [String.Pos.Raw.isValid_iff_exists_append] at hvalid
  rw [hextract, ByteArray.validateUTF8_eq_true_iff]
  constructor
  · intro hprefix
    obtain ⟨t, u, hs, hpos⟩ := hvalid.mpr ⟨h, hprefix⟩
    exact ⟨t, u, hs, (congrArg String.Pos.Raw.byteIdx hpos).symm⟩
  · rintro ⟨t, u, hs, rfl⟩
    exact (hvalid.mp ⟨t, u, hs, rfl⟩).2

theorem cut_lossy (n : ℕ) (s : String) : Cut n s (lossy (s.toUTF8.data.toList.take n)) := by
  rcases Nat.lt_or_ge n s.utf8ByteSize with hlong | hfits
  · by_cases hvalid : (ByteArray.mk (s.toUTF8.data.toList.take n).toArray).validateUTF8 = true
    · obtain ⟨t, u, rfl, rfl⟩ := (validateUTF8_take_iff hlong.le).mp hvalid
      rw [lossy, if_pos hvalid]
      have htake : (t ++ u).toUTF8.data.toList.take t.utf8ByteSize = t.toUTF8.data.toList := by
        have hdata : (t ++ u).toUTF8.data.toList = t.toUTF8.data.toList ++ u.toUTF8.data.toList := by
          rw [String.toUTF8_eq_toByteArray, String.toByteArray_append, ByteArray.data_append,
            Array.toList_append]
          rfl
        rw [hdata]
        exact List.take_left' rfl
      rw [htake]
      exact .boundary hlong rfl rfl
    · rw [lossy, if_neg hvalid]
      exact .inside hlong fun t u hs ht ↦ hvalid ((validateUTF8_take_iff hlong.le).mpr ⟨t, u, hs, ht⟩)
  · have hall : s.toUTF8.data.toList.take n = s.toUTF8.data.toList := List.take_of_length_le hfits
    have hvalid : (ByteArray.mk s.toUTF8.data.toList.toArray).validateUTF8 = true :=
      ByteArray.validateUTF8_eq_true_iff.mpr s.isValidUTF8
    rw [hall, lossy, if_pos hvalid]
    exact .whole hfits

theorem exists_lossy (bytes : List UInt8) : ∃ r : String, lossy bytes = r.toUTF8.data.toList := by
  rw [lossy]
  split
  · exact ⟨.ofByteArray _ (ByteArray.validateUTF8_eq_true_iff.mp ‹_›), rfl⟩
  · exact ⟨"<invalid utf-8>", by decide +kernel⟩

theorem decode_settles (buf : List UInt8) (hcap : 15 ≤ buf.length) (len : UInt64) : ∃ r : String,
    decode buf len = some r.toUTF8.data.toList ∧ r.utf8ByteSize ≤ buf.length ∧
      lossy (r.toUTF8.data.toList.take buf.length) = r.toUTF8.data.toList := by
  obtain ⟨r, hr⟩ := exists_lossy (buf.take (min len.toNat buf.length))
  have hfits : (lossy (buf.take (min len.toNat buf.length))).length ≤ buf.length := by
    rw [lossy]
    split
    · exact List.length_take_le' _ _
    · rwa [show invalidUtf8.length = 15 by decide +kernel]
  rw [hr] at hfits
  refine ⟨r, by rw [decode_eq, hr], hfits, ?_⟩
  have hcut := cut_lossy buf.length r
  generalize lossy (r.toUTF8.data.toList.take buf.length) = out at hcut ⊢
  cases hcut with
  | whole => rfl
  | boundary hlong | inside hlong => exact absurd hfits (Nat.not_le.mpr hlong)

/-- What comes back of a string is cut as it should be. Whatever words and lengths arrive, the slice
is within the buffer, a string comes out that fits, and it comes back when it is packed again. -/
theorem lossy_packing_exact :
    (∀ s : String,
      (∃ out, (Message.fromStrLossy s.toUTF8.data.toList).asStrLossy = some out ∧ Cut 32 s out) ∧
      ∃ lo hi len out, packShortName s.toUTF8.data.toList = (lo, hi, len) ∧
        unpackShortName lo hi len = some out ∧ Cut 16 s out) ∧
    (∀ m : Message, ∃ r : String, m.asStrLossy = some r.toUTF8.data.toList ∧
      r.utf8ByteSize ≤ 32 ∧
      (Message.fromStrLossy r.toUTF8.data.toList).asStrLossy = some r.toUTF8.data.toList) ∧
    ∀ lo hi len, ∃ r : String, unpackShortName lo hi len = some r.toUTF8.data.toList ∧
      r.utf8ByteSize ≤ 16 ∧ ∃ lo' hi' len', packShortName r.toUTF8.data.toList = (lo', hi', len') ∧
        unpackShortName lo' hi' len' = some r.toUTF8.data.toList := by
  refine ⟨fun s ↦ ⟨?_, _, _, _, _, rfl, unpackShortName_packShortName _, cut_lossy 16 s⟩,
    fun m ↦ ?_, fun lo hi len ↦ ?_⟩
  · exact ⟨_, Message.asStrLossy_fromStrLossy _, cut_lossy 32 s⟩
  · have hlen : (m.words.toList.flatMap toLeBytes).length = 32 := by
      simp [List.length_flatMap, toLeBytes, List.map_const', messageInlineWords]
    obtain ⟨r, hr, hfits, hagain⟩ := decode_settles _ (show 15 ≤ _ by rw [hlen]; decide) m.tag
    rw [hlen] at hfits hagain
    exact ⟨r, hr, hfits, (Message.asStrLossy_fromStrLossy _).trans (congrArg some hagain)⟩
  · obtain ⟨r, hr, hfits, hagain⟩ :=
      decode_settles (toLeBytes lo ++ toLeBytes hi) (Nat.le_of_ble_eq_true rfl) len
    exact ⟨r, hr, hfits, _, _, _, rfl,
      (unpackShortName_packShortName _).trans (congrArg some hagain)⟩

end Tarnos.Abi
