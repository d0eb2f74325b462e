import Mathlib.Data.Rat.Floor
import BlackSiren.Framework.Access

/-! # What the legacy units share

    - the constants of `r2math.h`
    - `CFloat`: the operations the sources apply to a C `float`
    - `Fault`: the ways a call ends without returning
    - `MicIdLst`, `Chan`: microphone lists and multi-channel audio

    Audio that a unit only ever appends to is a list, so that its length
    counter (`m_iLen_In` and the like) is the length of the list.  Arrays a
    unit also reads past that counter are functions on indices.
-/

namespace BlackSiren

def R2_AUDIO_SAMPLE_RATE : Nat := 16000
def R2_AUDIO_FRAME_MS : Nat := 10

/-- Samples of one frame: `R2_AUDIO_FRAME_MS * R2_AUDIO_SAMPLE_RATE / 1000`. -/
def R2_FRAME_SIZE : Nat := R2_AUDIO_FRAME_MS * R2_AUDIO_SAMPLE_RATE / 1000

/-! ### Floats -/

/-- C's `float`. No rounding is fixed here: an instance may be a machine
    format or the exact rationals. -/
class CFloat (F : Type) where
  /-- A literal such as `32768.0f`. -/
  ofRat : ℚ → F
  ofInt : Int → F
  sub : F → F → F
  mul : F → F → F
  div : F → F → F
  abs : F → F
  lt : F → F → Bool
  eq : F → F → Bool
  /-- The four bytes of the value, as one word. -/
  bits : F → BitVec 32
  ofBits : BitVec 32 → F

/-- Storing a float and loading it back gives the same float. -/
class LawfulCFloat (F : Type) [CFloat F] : Prop where
  ofBits_bits : ∀ x : F, CFloat.ofBits (CFloat.bits x) = x

/-- The rational an IEEE single with these bits stands for (zero for the
    infinities and the NaNs). -/
def ratOfSingle (b : BitVec 32) : ℚ :=
  let e : Nat := (b.toNat / 2 ^ 23) % 256
  let m : Nat := b.toNat % 2 ^ 23
  let sign : ℚ := if b.msb then -1 else 1
  if e = 255 then 0
  else if e = 0 then sign * m / 2 ^ 149
  else sign * (m + 2 ^ 23) * 2 ^ e / 2 ^ 150

/-- The IEEE single nearest to a rational towards zero (normal range). -/
def singleOfRat (q : ℚ) : BitVec 32 :=
  if q = 0 then 0
  else
    let e₀ : Int := Nat.log2 q.num.natAbs - Nat.log2 q.den
    let e : Int := if |q| < (2 : ℚ) ^ e₀ then e₀ - 1 else e₀
    let m : Int := ⌊|q| * (2 : ℚ) ^ (23 - e)⌋
    let sign : Int := if q < 0 then 2 ^ 31 else 0
    BitVec.ofInt 32 (sign + (e + 127) * 2 ^ 23 + (m - 2 ^ 23))

/-- Exact arithmetic. -/
instance : CFloat ℚ where
  ofRat := id
  ofInt := fun i => i
  sub := (· - ·)
  mul := (· * ·)
  div := (· / ·)
  abs := fun x => |x|
  lt := fun x y => decide (x < y)
  eq := fun x y => decide (x = y)
  bits := singleOfRat
  ofBits := ratOfSingle

/-- Singles as their bits, rounded towards zero. -/
structure Single where
  bits : BitVec 32
  deriving DecidableEq

namespace Single

def toRat (x : Single) : ℚ := ratOfSingle x.bits

def ofRat (q : ℚ) : Single := ⟨singleOfRat q⟩

instance : CFloat Single where
  ofRat := ofRat
  ofInt := fun i => ofRat i
  sub := fun x y => ofRat (x.toRat - y.toRat)
  mul := fun x y => ofRat (x.toRat * y.toRat)
  div := fun x y => ofRat (x.toRat / y.toRat)
  abs := fun x => ofRat |x.toRat|
  lt := fun x y => decide (x.toRat < y.toRat)
  eq := fun x y => decide (x.toRat = y.toRat)
  bits := bits
  ofBits := mk

instance : LawfulCFloat Single where
  ofBits_bits _ := rfl

end Single

/-! ### Faults -/

/-- A call that does not return: the failing `assert`, or the undefined
    operation it reaches. -/
inductive Fault where
  /-- `assert(iLen_In == 0 || (iLen_In > 0 && pData_In != NULL))`. -/
  | lenIn
  /-- `r2mem_i`: `assert(iLen_In % (sizeof(..) * iMicNum) == 0)`. -/
  | frameLen
  /-- `r2mem_vad2::process`: `assert(m_iVadState == 1)`. -/
  | vadNotStarted
  /-- `r2mem_cod::processdata`: `assert(!m_bPaused)`. -/
  | codPaused
  /-- `r2mem_cod::resume`: `assert(m_bPaused)`. -/
  | codNotPaused
  /-- `r2mem_vbv3::Process`: `assert(!m_bPre)`. -/
  | vbvPre
  /-- `r2mem_vbv3::Process`: `assert(m_bPre)`. -/
  | vbvNoPre
  /-- `SirenProcessorImpl::process`: a cancel result without a pre result. -/
  | cancelWithoutPre
  /-- A null `m_pWordInfo` or `m_pWordDetInfo` is dereferenced. -/
  | nullWord
  /-- `memcpy` with a negative length. -/
  | badMemcpy
  /-- `strcpy` of a string longer than its field. -/
  | strcpyOverrun
  /-- An index outside its vector or array. -/
  | outOfBounds
  /-- `new` of a negative number of elements. -/
  | badAlloc
  /-- Division by zero. -/
  | divByZero
  deriving DecidableEq, Repr

/-- The two assertions of the encoder. -/
def Fault.isCodAssert : Fault → Bool
  | .codPaused => true
  | .codNotPaused => true
  | _ => false

/-- `assert(c)`. -/
def assertThat (c : Bool) (f : Fault) : Except Fault Unit :=
  if c then .ok () else .error f

@[simp] theorem assertThat_true (f : Fault) : assertThat true f = .ok () := rfl

@[simp] theorem assertThat_false (f : Fault) : assertThat false f = .error f := rfl

export Access (bind_eq_ok bind_eq_error mapM_eq_ok mapM_eq_error)

theorem assertThat_eq_ok {c : Bool} {f : Fault} {u : Unit} :
    assertThat c f = .ok u ↔ c = true := by
  cases c <;> simp [assertThat]

theorem assertThat_eq_error {c : Bool} {f e : Fault} :
    assertThat c f = .error e ↔ c = false ∧ f = e := by
  cases c <;> simp [assertThat]

/-! ### Microphones -/

/-- `r2_mic_info`: the ids of a microphone list (`iMicNum` is its length). -/
abbrev MicIdLst : Type := List Int

/-- `float**`: one row of samples per microphone id. -/
abbrev Chan (F : Type) : Type := Int → Nat → F

end BlackSiren
