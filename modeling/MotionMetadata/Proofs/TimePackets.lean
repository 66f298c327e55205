import Mathlib.Data.Rat.Floor
import MotionMetadata.PrecisionTime
import MotionMetadata.Proofs.Integers
import MotionMetadata.Proofs.Reading
import MotionMetadata.Proofs.Writing

/-!
# Time packets, there and back

A time packet is a tag, a status and a count in which the writer puts a guard after every
second byte. The reader drops every third byte, so it gets the count back, and the tag tells
it what was counted. Nanoseconds come back as they were from the one tag that stands for them.
Microseconds come back if their nanoseconds have room in 64 bits: then half a microsecond has
room on top of them, and rounding gives back the count that was scaled.

For other times a microsecond packet holds the nearest count, halves going up, with one
exception. The half is added in 64 bits, and where it does not fit the sum stops at the
largest number. So of the last 116 nanoseconds that can be told, which are nearer to the next
microsecond, the count is one too low.
-/

namespace MotionMetadata.PrecisionTime

/-! ## Counts -/

theorem toNat_saturate (n : Nat) : (saturate n).toNat = min n (2 ^ 64 - 1) := by
  rw [saturate, UInt64.toNat_ofNat_of_lt']
  exact Nat.lt_of_le_of_lt (Nat.min_le_right _ _) (by decide)

theorem toNat_ofMicroseconds {count : UInt64} (h : count.toNat ≤ (2 ^ 64 - 1) / 1000)
    (status : UInt8) : (ofMicroseconds count status).nanoseconds.toNat = 1000 * count.toNat := by
  rw [ofMicroseconds, toNat_saturate]
  omega

theorem toNat_microseconds (t : PrecisionTime) :
    t.microseconds.toNat = min (t.nanoseconds.toNat + 500) (2 ^ 64 - 1) / 1000 := by
  rw [microseconds, UInt64.toNat_div, toNat_saturate]
  rfl

theorem microseconds_ofMicroseconds {count : UInt64} (h : count.toNat ≤ (2 ^ 64 - 1) / 1000)
    (status : UInt8) : (ofMicroseconds count status).microseconds = count := by
  apply UInt64.toNat_inj.1
  rw [toNat_microseconds, toNat_ofMicroseconds h]
  omega

/-! ## Guards -/

theorem unstuff_stuff (count : UInt64) :
    unstuff (stuff count) = BigEndian.bytes 8 count.toNat ∧
      (stuff count).length = stuffedLength := by
  have hlength := BigEndian.length_bytes 8 count.toNat
  rw [stuff]
  generalize BigEndian.bytes 8 count.toNat = digits at hlength ⊢
  match digits, hlength with
  | [_, _, _, _, _, _, _, _], _ => exact ⟨rfl, rfl⟩

theorem value_unstuff_stuff (count : UInt64) :
    BigEndian.value (unstuff (stuff count)) = count.toNat := by
  rw [(unstuff_stuff count).1, BigEndian.value_bytes]
  exact Nat.mod_eq_of_lt count.toNat_lt

/-! ## Packets -/

/-- The count that is written. -/
def countOf (t : PrecisionTime) (nano : Bool) : UInt64 :=
  if nano then t.nanoseconds else t.microseconds

/-- The bytes of a packet. -/
def packet (t : PrecisionTime) (kind : TimeTag) (nano : Bool) : Bytes :=
  tagBytes kind nano ++ ([t.status] ++ stuff (t.countOf nano))

variable (t : PrecisionTime) (kind : TimeTag) (nano : Bool)

theorem write_eq (position : Nat) :
    t.write kind nano position = .ok ((), t.packet kind nano) := rfl

theorem length_tagBytes : (tagBytes kind nano).length = tagLength := by
  cases kind <;> cases nano <;> rfl

theorem length_packet : (t.packet kind nano).length = packetLength := by
  rw [packet, List.length_append, List.length_append, length_tagBytes, (unstuff_stuff _).2]
  rfl

/-- The reader goes by the tag. -/
theorem reads_packet : read.Reads (t.packet kind nano)
    (if tagBytes kind nano = nanoTag then ofNanoseconds (t.countOf nano) t.status
      else ofMicroseconds (t.countOf nano) t.status) := by
  have htag := Reader.Reads.take (tagBytes kind nano)
  rw [length_tagBytes] at htag
  have hcount := Reader.Reads.take (stuff (t.countOf nano))
  rw [(unstuff_stuff _).2] at hcount
  refine .restoring (htag.bind ((Reader.Reads.byte t.status).bind (hcount.bind_nil ?_)))
  rw [value_unstuff_stuff, UInt64.ofNat_toNat]
  exact .pure _

/-- Every form of a packet is written, in 28 bytes, of which the reader takes all. -/
theorem written_then_read (position : Nat) : ∃ bytes,
    t.write kind nano position = .ok ((), bytes) ∧ bytes.length = 28 ∧
      read.Reads bytes (if tagBytes kind nano = nanoTag
        then ofNanoseconds (t.countOf nano) t.status
        else ofMicroseconds (t.countOf nano) t.status) :=
  ⟨t.packet kind nano, rfl, length_packet t kind nano, reads_packet t kind nano⟩

/-- A time packet of any form has 28 bytes, for the writer and for the reader, and keeps the
status. A time comes back from the UUID packet that counts its nanoseconds. From a packet of
either kind that counts microseconds a time of so many microseconds comes back, if its
nanoseconds have room. -/
theorem packets_come_back (status : UInt8) (position : Nat) :
    (∀ (t : PrecisionTime) kind nano, ∃ bytes, t.write kind nano position = .ok ((), bytes) ∧
      bytes.length = 28 ∧ ∃ t', read.Reads bytes t' ∧ t'.status = t.status) ∧
    (∀ count, ∃ bytes,
      (ofNanoseconds count status).write .uuid true position = .ok ((), bytes) ∧
        bytes.length = 28 ∧ read.Reads bytes ⟨count, status⟩) ∧
    ∀ (count : UInt64) kind, count.toNat ≤ (2 ^ 64 - 1) / 1000 → ∃ bytes t,
      (ofMicroseconds count status).write kind false position = .ok ((), bytes) ∧
        bytes.length = 28 ∧ read.Reads bytes t ∧
        t = ofMicroseconds count status ∧ t.microseconds = count ∧
        t.nanoseconds.toNat = 1000 * count.toNat ∧ t.status = status := by
  refine ⟨fun t kind nano => ?_, fun count => ?_, fun count kind hroom => ?_⟩
  · obtain ⟨bytes, hwrite, hlength, hread⟩ := written_then_read t kind nano position
    refine ⟨bytes, hwrite, hlength, _, hread, ?_⟩
    split
    · rfl
    · rfl
  · exact written_then_read (ofNanoseconds count status) .uuid true position
  · obtain ⟨bytes, hwrite, hlength, hread⟩ :=
      written_then_read (ofMicroseconds count status) kind false position
    have hmicro : tagBytes kind false ≠ nanoTag := by
      cases kind <;> decide
    have hcount : (ofMicroseconds count status).countOf false = count :=
      microseconds_ofMicroseconds hroom status
    rw [if_neg hmicro, hcount] at hread
    exact ⟨bytes, _, hwrite, hlength, hread, rfl, hcount, toNat_ofMicroseconds hroom status, rfl⟩

/-- The largest count of microseconds with room comes back. -/
theorem lastCount_comes_back :
    let last : UInt64 := 18446744073709551
    last.toNat ≤ (2 ^ 64 - 1) / 1000 ∧
      ∃ bytes t, (ofMicroseconds last unknownStatus).write .text false 0 = .ok ((), bytes) ∧
        read.Reads bytes t ∧ t.microseconds = last ∧
        t.nanoseconds.toNat = 18446744073709551000 := by
  intro last
  have hroom : last.toNat ≤ (2 ^ 64 - 1) / 1000 := by decide
  obtain ⟨-, -, hmicro⟩ := packets_come_back unknownStatus 0
  obtain ⟨bytes, t, hwrite, -, hread, -, hcount, hnanoseconds, -⟩ := hmicro last .text hroom
  exact ⟨hroom, bytes, t, hwrite, hread, hcount, hnanoseconds.trans (by decide)⟩

/-! ## Rounding -/

/-- The count that a packet holds, behind its tag and its status. -/
def storedCount (packet : Bytes) : Nat := BigEndian.value (unstuff (packet.drop (tagLength + 1)))

theorem storedCount_packet : storedCount (t.packet kind nano) = (t.countOf nano).toNat := by
  have htag : (tagBytes kind nano ++ [t.status]).length = tagLength + 1 := by
    rw [List.length_append, length_tagBytes, List.length_singleton]
  rw [storedCount, packet, ← List.append_assoc, ← htag, List.drop_left, value_unstuff_stuff]

theorem round_thousandth (n : Nat) : round ((n : ℚ) / 1000) = (n + 500) / 1000 := by
  have hhalf : (n : ℚ) / 1000 + 1 / 2 = ((n + 500 : Nat) : ℚ) / (1000 : Nat) := by
    push_cast
    ring
  rw [round_eq, hhalf, Rat.floor_natCast_div_natCast]
  push_cast
  rfl

theorem storedCount_ofNanoseconds (n : UInt64) (status : UInt8) :
    storedCount ((ofNanoseconds n status).packet kind false) =
      min (n.toNat + 500) (2 ^ 64 - 1) / 1000 := by
  rw [storedCount_packet]
  exact toNat_microseconds (ofNanoseconds n status)

/-- A microsecond packet holds the count that is nearest to the time, halves going up, exactly
if the time is not one of the last 116 nanoseconds. There it holds one less, which is off by
more than half a microsecond but for the first of them. A packet of an earlier time never
holds a larger count. -/
theorem stored_microseconds (n : UInt64) (status : UInt8) (kind : TimeTag) (position : Nat) :
    ∃ bytes, (ofNanoseconds n status).write kind false position = .ok ((), bytes) ∧
      (storedCount bytes = round ((n.toNat : ℚ) / 1000) ↔ n.toNat < 2 ^ 64 - 116) ∧
      (2 ^ 64 - 116 ≤ n.toNat → storedCount bytes + 1 = round ((n.toNat : ℚ) / 1000)) ∧
      (|(n.toNat : ℤ) - 1000 * storedCount bytes| ≤ 500 ↔ n.toNat ≤ 2 ^ 64 - 116) ∧
      ∀ (m : UInt64) status' kind' position' bytes', m ≤ n →
        (ofNanoseconds m status').write kind' false position' = .ok ((), bytes') →
        storedCount bytes' ≤ storedCount bytes := by
  have hlt := n.toNat_lt
  refine ⟨_, write_eq _ kind false position, ?_, ?_, ?_, ?_⟩
  · rw [storedCount_ofNanoseconds, round_thousandth]
    omega
  · rw [storedCount_ofNanoseconds, round_thousandth]
    omega
  · rw [storedCount_ofNanoseconds, abs_le]
    omega
  · rintro m status' kind' position' bytes' hle hwrite
    rw [write_eq] at hwrite
    injection hwrite with hwrite
    injection hwrite with _ hbytes
    rw [UInt64.le_iff_toNat_le] at hle
    rw [← hbytes, storedCount_ofNanoseconds, storedCount_ofNanoseconds]
    exact Nat.div_le_div_right (by omega)

/-- The microsecond nearest to the last nanosecond comes after it, but the one before is
written. It is still no less than what is written for the nanosecond before. -/
theorem lastNanosecond_rounded_down :
    let last : UInt64 := 18446744073709551615
    round ((last.toNat : ℚ) / 1000) = 18446744073709552 ∧ ∃ bytes earlier,
      (ofNanoseconds last unknownStatus).write .text false 0 = .ok ((), bytes) ∧
      storedCount bytes = 18446744073709551 ∧
      (ofNanoseconds (last - 1) unknownStatus).write .uuid false 0 = .ok ((), earlier) ∧
      storedCount earlier ≤ storedCount bytes := by
  intro last
  have hround : round ((last.toNat : ℚ) / 1000) = 18446744073709552 := by
    rw [round_thousandth]
    decide
  obtain ⟨bytes, hwrite, -, hlast, -, hlater⟩ := stored_microseconds last unknownStatus .text 0
  have hcount := hlast (by decide)
  rw [hround] at hcount
  have hearlier := write_eq (ofNanoseconds (last - 1) unknownStatus) .uuid false 0
  exact ⟨hround, bytes, _, hwrite, by omega, hearlier, hlater _ _ _ _ _ (by decide) hearlier⟩

end MotionMetadata.PrecisionTime
