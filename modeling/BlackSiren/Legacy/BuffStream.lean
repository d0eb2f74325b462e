import BlackSiren.Framework.Memory
import BlackSiren.Framework.Objects
import BlackSiren.Legacy.Out

/-! # `r2mem_buff` as a byte stream

    - `putMem`, `getdataMem`: the functions with every access and every `int`
      checked
    - `R2memBuffCall.held`: what the calls of a byte stream do
    - `Room`: a `put` that does not have to grow, or finds nothing read since
      the buffer was last empty
    - `byte_stream_iff`: when the buffer is a byte stream
-/

namespace BlackSiren

/-- The calls. -/
inductive R2memBuffCall where
  | put (pData : List UInt8)
  | getdatalen
  | getdata (iLen : Nat)
  | reset

/-- Their results. -/
inductive R2memBuffAnswer where
  | done
  | len (n : Nat)
  | data (bytes : List UInt8)
  deriving DecidableEq, Repr

/-- A byte stream: what is held after a call, and the answer. -/
def R2memBuffCall.held (l : List UInt8) : R2memBuffCall → List UInt8 × R2memBuffAnswer
  | .put pData => (l ++ pData, .done)
  | .getdatalen => (l, .len l.length)
  | .getdata iLen => (l.drop iLen, .data (l.take iLen))
  | .reset => ([], .done)

namespace R2memBuff

/-- The array. -/
def block (b : R2memBuff) : Memory.Block UInt8 := ⟨b.m_iLen_Total, b.m_pData⟩

/-- `reset`. -/
def reset (b : R2memBuff) : R2memBuff := { b with m_iLen := 0, m_iLen_Cur := 0 }

/-- The larger array of `put`. -/
def growMem (b : R2memBuff) (iLen : Nat) : Except Memory.Fault R2memBuff := do
  let len ← Memory.int (b.m_iLen + iLen)
  if len > b.m_iLen_Total then
    let total ← Memory.int (len * 2)
    let pTmp ← Memory.memcpy ⟨total.toNat, fun _ => 0⟩ 0 b.block b.m_iLen_Cur
      (b.m_iLen - b.m_iLen_Cur)
    let b := { b with m_iLen_Total := total.toNat, m_iLen_Cur := 0 }
    let b := { b with m_iLen := b.m_iLen - b.m_iLen_Cur }
    return { b with m_pData := pTmp.data }
  else return b

/-- `put`. -/
def putMem (b : R2memBuff) (pData : List UInt8) : Except Memory.Fault R2memBuff := do
  let b ← b.growMem pData.length
  let data ← Memory.memcpy b.block b.m_iLen (Memory.Block.ofList 0 pData) 0 pData.length
  return { b with m_pData := data.data, m_iLen := b.m_iLen + pData.length }

/-- `getdata`, into an array of `iLen` bytes. -/
def getdataMem (b : R2memBuff) (iLen : Nat) : Except Memory.Fault (List UInt8 × R2memBuff) := do
  let ll : Int := min ((b.m_iLen : Int) - b.m_iLen_Cur) iLen
  let pData ← Memory.memcpy ⟨iLen, fun _ => 0⟩ 0 b.block b.m_iLen_Cur ll
  let b := { b with m_iLen_Cur := b.m_iLen_Cur + ll.toNat }
  let b := if b.m_iLen_Cur = b.m_iLen then { b with m_iLen := 0, m_iLen_Cur := 0 } else b
  return (Memory.window pData.data 0 ll.toNat, b)

/-- One call. -/
def call (b : R2memBuff) : R2memBuffCall → Except Memory.Fault (R2memBuff × R2memBuffAnswer)
  | .put pData => do
      let b ← b.putMem pData
      return (b, .done)
  | .getdatalen => return (b, .len b.getdatalen)
  | .getdata iLen => do
      let (bytes, b) ← b.getdataMem iLen
      return (b, .data bytes)
  | .reset => return (b.reset, .done)

/-- A call, beside the bytes a byte stream would hold. -/
def callHeld (s : R2memBuff × List UInt8) (c : R2memBuffCall) :
    Except Memory.Fault ((R2memBuff × List UInt8) × R2memBuffAnswer) := do
  let (b, a) ← s.1.call c
  return ((b, (c.held s.2).1), a)

/-- A call as that of a byte stream: every access is inside, the answer is
    right, and `getdatalen` is the number of bytes held. -/
def Streams (s : R2memBuff × List UInt8) (c : R2memBuffCall) : Prop :=
  ∃ b, s.1.call c = .ok (b, (c.held s.2).2) ∧ b.getdatalen = (c.held s.2).1.length

/-- A `put` for which there is room, or which grows a buffer with nothing read
    from it to a size that is an `int`. -/
def Room (b : R2memBuff) : R2memBuffCall → Prop
  | .put pData => b.m_iLen + pData.length ≤ b.m_iLen_Total ∨
      b.m_iLen_Cur = 0 ∧ CInt.Fits ((b.m_iLen + pData.length) * 2)
  | _ => True

/-- The positions are in order. -/
structure Valid (b : R2memBuff) : Prop where
  cur_le : b.m_iLen_Cur ≤ b.m_iLen
  len_le : b.m_iLen ≤ b.m_iLen_Total
  total_fits : CInt.Fits b.m_iLen_Total

/-- The bytes between the positions. -/
def held (b : R2memBuff) : List UInt8 := Memory.window b.m_pData b.m_iLen_Cur b.getdatalen

theorem valid_new : new.Valid := ⟨by decide, by decide, by decide⟩

theorem length_held (b : R2memBuff) : b.held.length = b.getdatalen := Memory.length_window

/-! ### `put` -/

/-- The copy into a larger array. -/
theorem memcpy_grow {b : R2memBuff} (hb : b.Valid) {total : Nat} (h : b.m_iLen ≤ total) :
    Memory.memcpy ⟨total, fun _ => 0⟩ 0 b.block b.m_iLen_Cur ((b.m_iLen : Int) - b.m_iLen_Cur) =
      .ok ⟨total, fun k =>
        if k < b.m_iLen - b.m_iLen_Cur then b.m_pData (b.m_iLen_Cur + k) else 0⟩ := by
  have hcur := hb.cur_le
  have hlen := hb.len_le
  have hcopy := Memory.memcpy_eq_ok ⟨total, fun _ => 0⟩ b.block 0 b.m_iLen_Cur
    (b.m_iLen - b.m_iLen_Cur) (by dsimp only; omega)
    (by show _ ≤ b.m_iLen_Total; omega)
  simp only [Nat.zero_le, true_and, Nat.zero_add, Nat.sub_zero] at hcopy
  rw [← Nat.cast_sub hcur]
  exact hcopy

/-- The copy is inside; only the sums may be no `int`s. -/
theorem growMem_eq {b : R2memBuff} (hb : b.Valid) (iLen : Nat) :
    b.growMem iLen =
      if b.m_iLen + iLen ≤ b.m_iLen_Total ∨ CInt.Fits ((b.m_iLen + iLen) * 2) then .ok (b.grow iLen)
      else .error .overflow := by
  have htotal := hb.total_fits.2
  by_cases hroom : b.m_iLen + iLen ≤ b.m_iLen_Total
  · have hsum : CInt.Fits (b.m_iLen + iLen) := ⟨by omega, by omega⟩
    rw [if_pos (.inl hroom), grow, if_neg (by omega)]
    unfold growMem
    rw [Memory.int_eq_ok hsum]
    exact if_neg (by omega)
  · have hgrow : (b.m_iLen : Int) + iLen > b.m_iLen_Total := by omega
    by_cases hfits : CInt.Fits ((b.m_iLen + iLen) * 2)
    · have hsum : CInt.Fits (b.m_iLen + iLen) := ⟨by omega, by have := hfits.2; omega⟩
      have hlen : b.m_iLen ≤ (((b.m_iLen : Int) + iLen) * 2).toNat := by omega
      rw [if_pos (.inr hfits), grow, if_pos (by omega)]
      unfold growMem
      rw [Memory.int_eq_ok hsum]
      show (if _ > _ then _ else _) = _
      rw [if_pos hgrow, Memory.int_eq_ok hfits]
      show (Memory.memcpy _ _ _ _ _ >>= _) = _
      rw [memcpy_grow hb hlen]
      rfl
    · rw [if_neg (by rintro (h | h); exact hroom h; exact hfits h)]
      unfold growMem
      by_cases hsum : CInt.Fits (b.m_iLen + iLen)
      · rw [Memory.int_eq_ok hsum]
        show (if _ > _ then _ else _) = _
        rw [if_pos hgrow]
        unfold Memory.int
        rw [if_neg hfits]
        rfl
      · unfold Memory.int
        rw [if_neg hsum]
        rfl

/-- The positions stay in order whether the array grows or not. -/
theorem Valid.grow {b : R2memBuff} (hb : b.Valid) {iLen : Nat}
    (h : b.m_iLen + iLen ≤ b.m_iLen_Total ∨ CInt.Fits ((b.m_iLen + iLen) * 2)) :
    (b.grow iLen).m_iLen = b.m_iLen ∧ (b.grow iLen).m_iLen_Cur ≤ b.m_iLen_Cur ∧
      b.m_iLen + iLen ≤ (b.grow iLen).m_iLen_Total ∧ CInt.Fits (b.grow iLen).m_iLen_Total := by
  unfold R2memBuff.grow
  split
  · next hgrow =>
    refine ⟨rfl, Nat.zero_le _, ?_, ?_⟩
    · dsimp only
      omega
    · rcases h with h | h
      · omega
      · push_cast
        exact h
  · next hroom => exact ⟨rfl, Nat.le_refl _, by omega, hb.total_fits⟩

/-- Every access of `put` is inside. -/
theorem putMem_eq {b : R2memBuff} (hb : b.Valid) (pData : List UInt8) :
    b.putMem pData =
      if b.m_iLen + pData.length ≤ b.m_iLen_Total ∨
        CInt.Fits ((b.m_iLen + pData.length) * 2) then .ok (b.put pData)
      else .error .overflow := by
  unfold putMem
  rw [growMem_eq hb]
  split
  · next h =>
    obtain ⟨hlen, -, htotal, -⟩ := hb.grow h
    have hcopy := Memory.memcpy_eq_ok (b.grow pData.length).block
      (Memory.Block.ofList 0 pData) (b.grow pData.length).m_iLen 0 pData.length
      (by rw [hlen]; exact htotal) (Nat.le_of_eq (Nat.zero_add _))
    show (Memory.memcpy _ _ _ _ _ >>= _) = _
    rw [← Int.natCast_zero, hcopy]
    simp only [Nat.zero_add]
    rfl
  · rfl

/-! ### Bytes held -/

theorem Valid.put {b : R2memBuff} (hb : b.Valid) {pData : List UInt8}
    (h : b.m_iLen + pData.length ≤ b.m_iLen_Total ∨
      CInt.Fits ((b.m_iLen + pData.length) * 2)) : (b.put pData).Valid := by
  obtain ⟨hlen, hcur, htotal, hfits⟩ := hb.grow h
  have hle := hb.cur_le
  refine ⟨?_, ?_, hfits⟩
  · show (b.grow pData.length).m_iLen_Cur ≤ (b.grow pData.length).m_iLen + pData.length
    omega
  · show (b.grow pData.length).m_iLen + pData.length ≤ (b.grow pData.length).m_iLen_Total
    omega

/-- With nothing read from the buffer, a larger array holds the same bytes. -/
theorem held_grow {b : R2memBuff} {iLen : Nat}
    (h : b.m_iLen + iLen ≤ b.m_iLen_Total ∨ b.m_iLen_Cur = 0) :
    (b.grow iLen).m_iLen_Cur = b.m_iLen_Cur ∧ (b.grow iLen).held = b.held := by
  unfold R2memBuff.grow
  split
  · next hgrow =>
    have hcur : b.m_iLen_Cur = 0 := by omega
    refine ⟨hcur.symm, ?_⟩
    unfold held getdatalen
    rw [hcur]
    apply Memory.window_congr
    intro k hk
    dsimp only
    rw [Nat.zero_add, if_pos hk, Nat.zero_add]
  · exact ⟨rfl, rfl⟩

/-- What `put` writes comes behind what is held. -/
theorem held_put {b : R2memBuff} (hb : b.Valid) {pData : List UInt8}
    (h : b.m_iLen + pData.length ≤ b.m_iLen_Total ∨ b.m_iLen_Cur = 0) :
    (b.put pData).held = b.held ++ pData := by
  obtain ⟨hcur, hheld⟩ := held_grow h
  have hle : (b.grow pData.length).m_iLen_Cur ≤ (b.grow pData.length).m_iLen := by
    have hlen : (b.grow pData.length).m_iLen = b.m_iLen := by
      unfold R2memBuff.grow
      split <;> rfl
    rw [hcur, hlen]
    exact hb.cur_le
  rw [← hheld]
  unfold put held getdatalen
  generalize b.grow pData.length = g at hle ⊢
  dsimp only
  rw [show g.m_iLen + pData.length - g.m_iLen_Cur =
    (g.m_iLen - g.m_iLen_Cur) + pData.length by omega, Memory.window_add]
  congr 1
  · apply Memory.window_congr
    intro k hk
    rw [if_neg (by omega)]
  · refine Eq.trans ?_ (Memory.window_ofList 0 pData)
    apply Memory.window_congr
    intro k hk
    rw [if_pos (by omega), Nat.zero_add, show g.m_iLen_Cur + (g.m_iLen - g.m_iLen_Cur) + k -
      g.m_iLen = k by omega]
    rfl

/-- Every access of `getdata` is inside. -/
theorem getdataMem_eq {b : R2memBuff} (hb : b.Valid) (iLen : Nat) :
    b.getdataMem iLen = .ok (b.getdata iLen) := by
  have hcur := hb.cur_le
  have hlen := hb.len_le
  have hll : min ((b.m_iLen : Int) - b.m_iLen_Cur) iLen =
      (min (b.m_iLen - b.m_iLen_Cur) iLen : Nat) := by omega
  have hcopy := Memory.memcpy_eq_ok ⟨iLen, fun _ => (0 : UInt8)⟩ b.block 0 b.m_iLen_Cur
    (min (b.m_iLen - b.m_iLen_Cur) iLen) (by dsimp only; omega)
    (by show _ ≤ b.m_iLen_Total; omega)
  unfold getdataMem getdata
  dsimp only
  rw [hll, ← Int.natCast_zero, hcopy]
  generalize min (b.m_iLen - b.m_iLen_Cur) iLen = ll
  have hwindow : Memory.window (fun k => if 0 ≤ k ∧ k < 0 + ll then
      b.block.data (b.m_iLen_Cur + (k - 0)) else 0) 0 ll =
      Memory.window b.m_pData b.m_iLen_Cur ll := by
    apply Memory.window_congr
    intro k hk
    rw [if_pos (by omega), Nat.sub_zero, Nat.zero_add]
    rfl
  show Except.ok (Memory.window _ 0 ll, _) = _
  rw [hwindow, Int.toNat_natCast]
  by_cases hall : b.m_iLen_Cur + ll = b.m_iLen
  · rw [if_pos hall, if_pos hall]
    rfl
  · rw [if_neg hall, if_neg hall]
    rfl

/-- `getdata` fetches from the front and leaves the rest. -/
theorem held_getdata {b : R2memBuff} (hb : b.Valid) (iLen : Nat) :
    (b.getdata iLen).1 = b.held.take iLen ∧ (b.getdata iLen).2.held = b.held.drop iLen ∧
      (b.getdata iLen).2.Valid := by
  have hcur := hb.cur_le
  have hlen := hb.len_le
  have htake : b.held.take iLen =
      Memory.window b.m_pData b.m_iLen_Cur (min (b.m_iLen - b.m_iLen_Cur) iLen) := by
    rw [held, Memory.take_window, Nat.min_comm]
    rfl
  have hdrop : b.held.drop iLen = Memory.window b.m_pData (b.m_iLen_Cur + iLen)
      (b.m_iLen - b.m_iLen_Cur - iLen) := Memory.drop_window iLen
  rw [htake, hdrop]
  unfold getdata
  dsimp only
  split
  · next hall =>
    refine ⟨rfl, ?_, Nat.le_refl 0, Nat.zero_le _, hb.total_fits⟩
    rw [show b.m_iLen - b.m_iLen_Cur - iLen = 0 by omega]
    rfl
  · next hsome =>
    have hmin : min (b.m_iLen - b.m_iLen_Cur) iLen = iLen := by omega
    refine ⟨rfl, ?_, ?_, hlen, hb.total_fits⟩
    · unfold held getdatalen
      rw [hmin, Nat.sub_sub]
    · show b.m_iLen_Cur + _ ≤ b.m_iLen
      omega

/-! ### Runs -/

/-- A buffer in order that holds what a byte stream would. -/
structure Holds (s : R2memBuff × List UInt8) : Prop where
  valid : s.1.Valid
  held_eq : s.1.held = s.2

theorem Holds.length {s : R2memBuff × List UInt8} (h : Holds s) : s.2.length = s.1.getdatalen := by
  rw [← h.held_eq, length_held]

/-- With room, a call is that of a byte stream. -/
theorem Holds.call {s : R2memBuff × List UInt8} (hs : Holds s) {c : R2memBuffCall}
    (hc : s.1.Room c) : ∃ b, s.1.call c = .ok (b, (c.held s.2).2) ∧ Holds (b, (c.held s.2).1) := by
  obtain ⟨hvalid, hheld⟩ := hs
  cases c with
  | put pData =>
    have hput : s.1.m_iLen + pData.length ≤ s.1.m_iLen_Total ∨
        CInt.Fits ((s.1.m_iLen + pData.length) * 2) := hc.imp_right And.right
    refine ⟨s.1.put pData, ?_, hvalid.put hput, ?_⟩
    · rw [R2memBuff.call, putMem_eq hvalid, if_pos hput]
      rfl
    · rw [held_put hvalid (hc.imp_right And.left), hheld]
      rfl
  | getdatalen =>
    refine ⟨s.1, ?_, hvalid, hheld⟩
    show Except.ok (s.1, R2memBuffAnswer.len s.1.getdatalen) = .ok (s.1, .len s.2.length)
    rw [← hheld, length_held]
  | getdata iLen =>
    obtain ⟨htake, hdrop, hrest⟩ := held_getdata hvalid iLen
    refine ⟨(s.1.getdata iLen).2, ?_, hrest, hdrop.trans (congrArg _ hheld)⟩
    have hanswer : (R2memBuffCall.getdata iLen).held s.2 =
        (s.2.drop iLen, .data (s.1.getdata iLen).1) := by
      rw [htake, hheld]
      rfl
    rw [R2memBuff.call, getdataMem_eq hvalid, hanswer]
    rfl
  | reset => exact ⟨s.1.reset, rfl, ⟨Nat.le_refl 0, Nat.zero_le _, hvalid.total_fits⟩, rfl⟩

/-- Where the buffer holds what a byte stream would, a call is that of a byte
    stream exactly if there is room. -/
theorem Holds.streams_iff {s : R2memBuff × List UInt8} (hs : Holds s) (c : R2memBuffCall) :
    Streams s c ↔ s.1.Room c := by
  constructor
  · rintro ⟨b, hcall, hlen⟩
    cases c with
    | put pData =>
      rw [R2memBuff.call, putMem_eq hs.valid] at hcall
      by_cases hput : s.1.m_iLen + pData.length ≤ s.1.m_iLen_Total
      · exact .inl hput
      · by_cases hfits : CInt.Fits ((s.1.m_iLen + pData.length) * 2)
        · -- the array grows: the length is right only if nothing has been read
          rw [if_pos (.inr hfits)] at hcall
          cases hcall
          refine .inr ⟨?_, hfits⟩
          have hgrow : (s.1.put pData).getdatalen = s.1.m_iLen + pData.length - 0 := by
            unfold getdatalen put grow
            rw [if_pos (by omega)]
          have hspec : (s.2 ++ pData).length = s.1.m_iLen - s.1.m_iLen_Cur + pData.length := by
            rw [List.length_append, hs.length]
            rfl
          have hcur := hs.valid.cur_le
          have heq := (hgrow.symm.trans hlen).trans hspec
          omega
        · rw [if_neg (by rintro (h | h); exact hput h; exact hfits h)] at hcall
          cases hcall
    | getdatalen => trivial
    | getdata iLen => trivial
    | reset => trivial
  · intro hc
    obtain ⟨b, hcall, hholds⟩ := hs.call hc
    exact ⟨b, hcall, hholds.length.symm⟩

/-- In any sequence of calls of a new buffer, every call is that of a byte stream
    exactly if every `put` finds room, or grows a buffer with nothing read from
    it. -/
theorem byte_stream_iff (calls : List R2memBuffCall) :
    Objects.Along callHeld Streams (new, []) calls ↔
      Objects.Along callHeld (fun s c => s.1.Room c) (new, []) calls := by
  refine Objects.along_iff Holds ?_ ?_ ⟨valid_new, rfl⟩
  · intro s c hs
    exact hs.streams_iff c
  · intro s c s' a hs hc h
    obtain ⟨b, hcall, hholds⟩ := hs.call hc
    unfold callHeld at h
    rw [hcall] at h
    cases h
    exact hholds

/-- A thousand bytes, one of them fetched, and one more: the array grows, and
    the length still counts the byte that has been fetched. -/
theorem fetched_byte_counted : ¬ ∀ calls : List R2memBuffCall,
    Objects.Along callHeld Streams (new, []) calls := by
  intro h
  have hlen : (List.replicate 1000 (0 : UInt8)).length = 1000 := List.length_replicate
  obtain ⟨-, h⟩ := h [.put (List.replicate 1000 0), .getdata 1, .put [0]]
  generalize List.replicate 1000 (0 : UInt8) = bytes at hlen h
  have hroom : new.m_iLen + bytes.length ≤ new.m_iLen_Total := by
    rw [hlen]
    decide
  have hput : callHeld (new, []) (.put bytes) = .ok ((new.put bytes, [] ++ bytes), .done) := by
    unfold callHeld
    rw [R2memBuff.call, putMem_eq valid_new, if_pos (.inl hroom)]
    rfl
  have hholds : Holds (new.put bytes, [] ++ bytes) :=
    ⟨valid_new.put (.inl hroom), held_put valid_new (.inl hroom)⟩
  obtain ⟨-, h⟩ := h _ _ hput
  -- one byte of the full array is fetched
  obtain ⟨b, hget, hholds'⟩ := hholds.call (c := .getdata 1) trivial
  have hb : b = ((new.put bytes).getdata 1).2 := by
    rw [R2memBuff.call, getdataMem_eq hholds.valid] at hget
    exact (Prod.mk.inj (Except.ok.inj hget)).1.symm
  obtain ⟨hstreams, -⟩ := h (b, (R2memBuffCall.held ([] ++ bytes) (.getdata 1)).1) _ (by
    unfold callHeld
    rw [hget]
    rfl)
  obtain ⟨hlen', hcur'⟩ := put_len empty_new bytes
  have htotal : (new.put bytes).m_iLen_Total = 1000 := by
    unfold put grow
    rw [if_neg (by omega)]
    rfl
  rw [hlen] at hlen'
  have hfields : b.m_iLen = 1000 ∧ b.m_iLen_Cur = 1 ∧ b.m_iLen_Total = 1000 := by
    rw [hb]
    unfold getdata
    rw [hlen', hcur', if_neg (by omega)]
    exact ⟨rfl, rfl, htotal⟩
  obtain ⟨h₁, h₂, h₃⟩ := hfields
  rcases (hholds'.streams_iff _).mp hstreams with hle | ⟨hzero, -⟩
  · change b.m_iLen + 1 ≤ b.m_iLen_Total at hle
    omega
  · change b.m_iLen_Cur = 0 at hzero
    omega

end R2memBuff

end BlackSiren
