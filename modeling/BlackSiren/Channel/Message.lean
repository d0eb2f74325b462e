import BlackSiren.Framework.Bytes

/-! # Messages and their bytes

    `Message` is sent as it lies in memory: a header of 32 bytes (of a 64-bit
    build) and, right behind it, `len` bytes of data.

        0  magic      8  msg       16  padding2, a hole of four bytes
        4  padding   12  len       24  data

    Only `magic`, `msg` and `len` mean anything to the other side.  The other
    bytes of a header are whatever the sender's memory holds there.
-/

namespace BlackSiren

/-! ### The messages of `isiren.h` that this development sends -/

def SIREN_REQUEST_MSG_SET_STATE : BitVec 32 := 6
def SIREN_REQUEST_MSG_SET_STEER : BitVec 32 := 7
def SIREN_REQUEST_MSG_SYNC_VT_WORD_LIST : BitVec 32 := 9
def SIREN_REQUEST_MSG_DESTROY : BitVec 32 := 11

/-! ### Messages -/

/-- `sizeof(Message)` -/
def sizeofMessage : Nat := 32

/-- `"aabb"` -/
def magic : List UInt8 := [97, 97, 98, 98]

/-- `Message`; `len` is an `int` and the length of the data. -/
@[ext] structure Message where
  msg : BitVec 32
  data : List UInt8
  fits : data.length < 2 ^ 31
  deriving DecidableEq

namespace Message

/-- The first half of a header. -/
def prefix16 (m : Message) (spare : Nat → UInt8) : List UInt8 :=
  magic ++ (List.range 4).map (fun i => spare (4 + i)) ++ Bytes.toLE 4 m.msg.toNat ++
    Bytes.toLE 4 m.data.length

/-- The header; `spare i` is the byte at offset `i` where no field is set. -/
def header (m : Message) (spare : Nat → UInt8) : List UInt8 :=
  m.prefix16 spare ++ (List.range 16).map (fun i => spare (16 + i))

/-- What `writeMessage` writes. -/
def bytes (m : Message) (spare : Nat → UInt8) : List UInt8 := m.header spare ++ m.data

end Message

/-! ### Fields of a header -/

/-- `checkMagic` -/
def checkMagic (buff : List UInt8) : Bool := buff.take 4 == magic

/-- `msg` -/
def headerMsg (buff : List UInt8) : BitVec 32 :=
  BitVec.ofNat 32 (Bytes.ofLE ((buff.drop 8).take 4))

/-- `len` -/
def headerLen (buff : List UInt8) : BitVec 32 :=
  BitVec.ofNat 32 (Bytes.ofLE ((buff.drop 12).take 4))

namespace Message

variable (m : Message) (spare : Nat → UInt8)

@[simp] theorem length_prefix16 : (m.prefix16 spare).length = 16 := by
  simp [prefix16, magic]

@[simp] theorem length_header : (m.header spare).length = sizeofMessage := by
  simp [header, sizeofMessage]

theorem headerMsg_prefix16 : headerMsg (m.prefix16 spare) = m.msg := by
  have hbytes : ((m.prefix16 spare).drop 8).take 4 = Bytes.toLE 4 m.msg.toNat := rfl
  unfold headerMsg
  rw [hbytes, Bytes.ofLE_toLE m.msg.isLt, BitVec.ofNat_toNat, BitVec.setWidth_eq]

theorem headerLen_prefix16 : headerLen (m.prefix16 spare) = BitVec.ofNat 32 m.data.length := by
  have hbytes : ((m.prefix16 spare).drop 12).take 4 = Bytes.toLE 4 m.data.length := rfl
  have hfits := m.fits
  unfold headerLen
  rw [hbytes, Bytes.ofLE_toLE (by omega)]

end Message

/-- Only the first half of a header is looked at. -/
theorem headerMsg_append {a b : List UInt8} (h : 12 ≤ a.length) :
    headerMsg (a ++ b) = headerMsg a := by
  unfold headerMsg
  rw [List.drop_append_of_le_length (by omega),
    List.take_append_of_le_length (by rw [List.length_drop]; omega)]

theorem headerLen_append {a b : List UInt8} (h : 16 ≤ a.length) :
    headerLen (a ++ b) = headerLen a := by
  unfold headerLen
  rw [List.drop_append_of_le_length (by omega),
    List.take_append_of_le_length (by rw [List.length_drop]; omega)]

/-- The sign of `len` is that of its last byte. -/
theorem headerLen_negative {buff : List UInt8} (h : buff[15]? = some 0x80) :
    (headerLen buff).msb = true := by
  obtain ⟨hlt, hbyte⟩ := List.getElem?_eq_some_iff.mp h
  have hfour : (buff.drop 12).take 4 = [buff[12], buff[13], buff[14], 0x80] := by
    rw [List.drop_eq_getElem_cons (by omega), List.drop_eq_getElem_cons (by omega),
      List.drop_eq_getElem_cons (by omega), List.drop_eq_getElem_cons hlt, hbyte]
    rfl
  have hvalue : (headerLen buff).toNat =
      buff[12].toNat + 256 * (buff[13].toNat + 256 * (buff[14].toNat + 256 * 128)) := by
    have h12 : buff[12].toNat < 256 := buff[12].toNat_lt
    have h13 : buff[13].toNat < 256 := buff[13].toNat_lt
    have h14 : buff[14].toNat < 256 := buff[14].toNat_lt
    unfold headerLen
    rw [hfour, Bytes.ofLE_cons, Bytes.ofLE_cons, Bytes.ofLE_cons, Bytes.ofLE_cons,
      Bytes.ofLE_nil, BitVec.toNat_ofNat]
    show (_ + 256 * (_ + 256 * (_ + 256 * (128 + 256 * 0)))) % 2 ^ 32 = _
    omega
  rw [BitVec.msb_eq_decide, decide_eq_true_eq, hvalue]
  show 2 ^ 31 ≤ _
  omega

end BlackSiren
