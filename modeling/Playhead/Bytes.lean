/-!
# Bytes — byte arrays by pattern, and numbers as bytes

`Bytes.repeated` writes a pattern over and over without looking at every byte by itself; its bytes are the pattern's,
one copy behind the other (`toList_repeated`).  `Bytes.littleEndian` and `Bytes.ofLittleEndian` lead from numbers to
bytes and back.
-/
namespace Playhead
namespace Bytes

instance decidableEqBytes : DecidableEq ByteArray := ByteArray.instDecidableEq

/-- So many copies of a pattern, put together out of halves. -/
def repeated (pattern : ByteArray) (count : Nat) : ByteArray :=
  if count = 0 then .empty
  else
    let half := repeated pattern (count / 2)
    if count % 2 = 0 then half ++ half else half ++ half ++ pattern
termination_by count
decreasing_by omega

def zeros (count : Nat) : ByteArray := repeated ⟨#[0]⟩ count

theorem toList_append (a b : ByteArray) : (a ++ b).data.toList = a.data.toList ++ b.data.toList := by
  rw [ByteArray.data_append, Array.toList_append]

theorem toList_repeated (pattern : ByteArray) (count : Nat) :
    (repeated pattern count).data.toList = (List.replicate count pattern.data.toList).flatten := by
  induction count using Nat.strongRecOn with
  | ind count ih =>
    unfold repeated
    split
    · next h => subst h; rfl
    · next h =>
      have hi := ih (count / 2) (by omega)
      have hh : (List.replicate (count / 2 + count / 2) pattern.data.toList).flatten =
          (repeated pattern (count / 2)).data.toList ++ (repeated pattern (count / 2)).data.toList := by
        rw [← List.replicate_append_replicate, List.flatten_append, hi]
      simp only
      split
      · next he =>
        rw [toList_append, ← hh]
        congr 2
        omega
      · next ho =>
        rw [toList_append, toList_append, ← hh]
        have hc : count = count / 2 + count / 2 + 1 := by omega
        conv => rhs; rw [hc, ← List.replicate_append_replicate, List.flatten_append]
        simp

@[simp] theorem size_repeated (pattern : ByteArray) (count : Nat) :
    (repeated pattern count).size = count * pattern.size := by
  rw [← ByteArray.size_data, ← Array.length_toList, toList_repeated, List.length_flatten, List.map_replicate,
    List.sum_replicate_nat, Array.length_toList, ByteArray.size_data]

@[simp] theorem size_zeros (count : Nat) : (zeros count).size = count := by
  rw [zeros, size_repeated]
  exact Nat.mul_one count

/-- An unsigned number as bytes, the low one first; what does not fit is cut off. -/
def littleEndian : (count : Nat) → Nat → List UInt8
  | 0, _ => []
  | count + 1, n => UInt8.ofNat n :: littleEndian count (n / 256)

def ofLittleEndian : List UInt8 → Nat
  | [] => 0
  | b :: bs => b.toNat + 256 * ofLittleEndian bs

theorem length_littleEndian (count n : Nat) : (littleEndian count n).length = count := by
  induction count generalizing n with
  | zero => rfl
  | succ count ih => simp [littleEndian, ih]

theorem ofLittleEndian_littleEndian (count n : Nat) (h : n < Nat.pow 256 count) :
    ofLittleEndian (littleEndian count n) = n := by
  induction count generalizing n with
  | zero =>
    have : n = 0 := by simpa using h
    rw [this, littleEndian, ofLittleEndian]
  | succ count ih =>
    have : n / 256 < Nat.pow 256 count := by
      rw [Nat.div_lt_iff_lt_mul (by decide)]
      exact h
    simp only [littleEndian, ofLittleEndian, ih _ this, UInt8.toNat_ofNat']
    omega

def leading (count : Nat) (bytes : ByteArray) : List UInt8 := (bytes.extract 0 count).data.toList

end Bytes
end Playhead
