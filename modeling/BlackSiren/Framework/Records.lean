import Mathlib.Data.UInt
import Mathlib.Data.List.Basic

/-! # Records behind a length byte

    A stream of records, each one unsigned length byte and as many bytes.

    - `record`: a record as it is written, whatever the length
    - `read`: the contents of a stream of records
    - `read_flatMap_iff`: what is written is read back exactly if no content is
      longer than the byte can say
-/

namespace Records

/-- The length byte and the content. -/
def record (content : List UInt8) : List UInt8 := UInt8.ofNat content.length :: content

/-- The contents of at most `fuel` records that make up a stream. -/
def readN : Nat → List UInt8 → Option (List (List UInt8))
  | _, [] => some []
  | 0, _ :: _ => none
  | fuel + 1, n :: bytes =>
      if n.toNat ≤ bytes.length then
        (readN fuel (bytes.drop n.toNat)).map fun contents => bytes.take n.toNat :: contents
      else none

/-- The contents of the records of a stream; none if the last one is cut off.
    Each record takes at least one byte. -/
def read (bytes : List UInt8) : Option (List (List UInt8)) := readN bytes.length bytes

theorem readN_nil (fuel : Nat) : readN fuel [] = some [] := by
  cases fuel <;> rfl

/-- More fuel than bytes makes no difference. -/
theorem readN_eq_read {fuel : Nat} {bytes : List UInt8} (h : bytes.length ≤ fuel) :
    readN fuel bytes = read bytes := by
  unfold read
  induction fuel using Nat.strong_induction_on generalizing bytes with
  | _ fuel ih =>
    cases bytes with
    | nil => rw [readN_nil, readN_nil]
    | cons n bytes =>
      cases fuel with
      | zero => exact absurd h (Nat.not_succ_le_zero _)
      | succ fuel =>
        rw [List.length_cons] at h ⊢
        unfold readN
        split
        · have hrest : (bytes.drop n.toNat).length ≤ bytes.length := by
            rw [List.length_drop]
            omega
          -- both read the bytes behind the first record, with fuel to spare
          rw [ih fuel (Nat.lt_succ_self _) (by omega)]
          by_cases hlt : bytes.length < fuel + 1
          · rw [ih bytes.length hlt hrest]
          · omega
        · rfl

theorem read_cons {n : UInt8} {bytes : List UInt8} (h : n.toNat ≤ bytes.length) :
    read (n :: bytes) =
      (read (bytes.drop n.toNat)).map fun contents => bytes.take n.toNat :: contents := by
  show readN (bytes.length + 1) (n :: bytes) = _
  rw [readN, if_pos h, readN_eq_read (by rw [List.length_drop]; omega)]

/-- A record that says its length is read as its content. -/
theorem read_record_append {content : List UInt8} (h : content.length < 256)
    (bytes : List UInt8) :
    read (record content ++ bytes) = (read bytes).map (content :: ·) := by
  have hlen : (UInt8.ofNat content.length).toNat = content.length := by
    rw [UInt8.toNat_ofNat']
    exact Nat.mod_eq_of_lt h
  show read (UInt8.ofNat content.length :: (content ++ bytes)) = _
  rw [read_cons (by rw [hlen, List.length_append]; omega), hlen, List.drop_left' rfl,
    List.take_left' rfl]

/-- Nothing that is read is longer than the byte can say. -/
theorem lt_of_readN {fuel : Nat} {bytes : List UInt8} {contents : List (List UInt8)}
    (h : readN fuel bytes = some contents) : ∀ content ∈ contents, content.length < 256 := by
  induction fuel generalizing bytes contents with
  | zero =>
    cases bytes with
    | nil =>
      cases h
      simp
    | cons n bytes => cases h
  | succ fuel ih =>
    cases bytes with
    | nil =>
      cases h
      simp
    | cons n bytes =>
      unfold readN at h
      split at h
      · obtain ⟨rest, hrest, rfl⟩ := Option.map_eq_some_iff.mp h
        refine List.forall_mem_cons.mpr ⟨?_, ih hrest⟩
        have hn := n.toNat_lt
        rw [List.length_take]
        omega
      · cases h

/-- What is written is read back exactly if every length fits its byte. -/
theorem read_flatMap_iff {contents : List (List UInt8)} :
    read (contents.flatMap record) = some contents ↔
      ∀ content ∈ contents, content.length < 256 := by
  constructor
  · exact lt_of_readN
  · intro h
    induction contents with
    | nil => rfl
    | cons content contents ih =>
      rw [List.forall_mem_cons] at h
      rw [List.flatMap_cons, read_record_append h.1, ih h.2]
      rfl

end Records
