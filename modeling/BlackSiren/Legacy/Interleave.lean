import BlackSiren.Framework.Blocks
import BlackSiren.Legacy.In
import BlackSiren.Legacy.Out

/-! # From `r2mem_o` to `r2mem_i`

    `r2mem_o` interleaves the channels of a list of microphones as floats; a
    `r2mem_i` for floats with the same list takes them apart again.

    - `readLE_process`: a sample in what `r2mem_o` puts out
    - `process_interleaved`: the round trip
-/

namespace BlackSiren

/-! ### `r2mem_o` -/

namespace R2memO

variable {F : Type} [CFloat F] (u : R2memO) (d : Chan F) (n : Nat)

/-- The samples of one instant, one after the other. -/
def instant (i : Nat) : List UInt8 :=
  u.m_pMicInfo_Out.flatMap fun id => Bytes.toLE 4 (CFloat.bits (d id i)).toNat

theorem length_instant (i : Nat) : (u.instant d i).length = 4 * u.m_pMicInfo_Out.length :=
  Blocks.length_flatMap fun _ _ => Bytes.length_toLE 4 _

theorem length_process :
    (u.process d n).length = 4 * u.m_pMicInfo_Out.length * n := by
  have hlen := Blocks.length_flatMap (l := List.range n) fun i _ => u.length_instant d i
  rw [List.length_range] at hlen
  exact hlen

variable {u d n}

/-- The bytes of the sample in column `col` at instant `i`. -/
theorem getD_process {i col k : Nat} {id : Int} (hi : i < n)
    (hcol : u.m_pMicInfo_Out[col]? = some id) (hk : k < 4) :
    (u.process d n).getD (4 * (i * u.m_pMicInfo_Out.length + col) + k) 0 =
      (Bytes.toLE 4 (CFloat.bits (d id i)).toNat).getD k 0 := by
  have hlt : col < u.m_pMicInfo_Out.length := (List.getElem?_eq_some_iff.mp hcol).1
  have hpos : 4 * (i * u.m_pMicInfo_Out.length + col) + k =
      4 * u.m_pMicInfo_Out.length * i + (4 * col + k) := by
    rw [Nat.mul_add, Nat.mul_assoc, Nat.mul_comm i]
    omega
  -- the instant, and in it the column
  have hinstant : (u.process d n).getD (4 * u.m_pMicInfo_Out.length * i + (4 * col + k)) 0 =
      (u.instant d i).getD (4 * col + k) 0 := by
    apply Blocks.getD_flatMap (fun i _ => u.length_instant d i)
    · rw [List.getElem?_range hi]
    · omega
  rw [hpos, hinstant]
  exact Blocks.getD_flatMap (fun _ _ => Bytes.length_toLE 4 _) hcol hk 0

/-- The sample in column `col` at instant `i`. -/
theorem readLE_process {i col : Nat} {id : Int} (hi : i < n)
    (hcol : u.m_pMicInfo_Out[col]? = some id) :
    Bytes.readLE (fun k => (u.process d n).getD k 0) (4 * (i * u.m_pMicInfo_Out.length + col)) 4 =
      (CFloat.bits (d id i)).toNat := by
  have hbytes : (List.range 4).map (fun k =>
      (u.process d n).getD (4 * (i * u.m_pMicInfo_Out.length + col) + k) 0) =
        Bytes.toLE 4 (CFloat.bits (d id i)).toNat := by
    apply List.ext_getElem
    · rw [List.length_map, List.length_range, Bytes.length_toLE]
    · intro k hk hk'
      rw [Bytes.length_toLE] at hk'
      rw [List.getElem_map, List.getElem_range, getD_process hi hcol hk']
      exact List.getD_eq_getElem _ _ _
  unfold Bytes.readLE
  rw [hbytes]
  exact Bytes.ofLE_toLE (CFloat.bits (d id i)).isLt

end R2memO

/-! ### `r2mem_i` -/

/-- A float that has been stored and loaded. -/
def reloaded {F : Type} [CFloat F] (x : F) : F := CFloat.ofBits (CFloat.bits x)

namespace R2memI

variable {F : Type} [CFloat F]

/-- What `r2mem_o` has interleaved is taken apart into the same samples. -/
theorem process_interleaved {u : R2memI F} (htype : u.m_iInType = .r2_in_float_32)
    (hmics : u.m_pMicInfo_In ≠ []) (d : Chan F) (n : Nat) :
    ∃ u', u.process (fun k => ((R2memO.mk u.m_pMicInfo_In).process d n).getD k 0)
        ((R2memO.mk u.m_pMicInfo_In).process d n).length = .ok (u', n) ∧
      ∀ id ∈ u.m_pMicInfo_In, ∀ i < n, u'.m_pData_Out id i = reloaded (d id i) := by
  have hsize : u.m_iInType.size * u.m_pMicInfo_In.length = 4 * u.m_pMicInfo_In.length := by
    rw [htype]
    rfl
  have hlen : ((R2memO.mk u.m_pMicInfo_In).process d n).length =
      u.m_iInType.size * u.m_pMicInfo_In.length * n := by
    rw [hsize]
    exact R2memO.length_process _ d n
  have hpos : 0 < u.m_iInType.size * u.m_pMicInfo_In.length := by
    have hnum := List.length_pos_iff.mpr hmics
    omega
  have hmod : (((R2memO.mk u.m_pMicInfo_In).process d n).length : Int).toNat %
      (u.m_iInType.size * u.m_pMicInfo_In.length) = 0 := by
    rw [Int.toNat_natCast, hlen]
    exact Nat.mul_mod_right _ n
  obtain ⟨u', n', hu'⟩ := process_returns (Int.natCast_nonneg _) hmics hmod
    (fun k => ((R2memO.mk u.m_pMicInfo_In).process d n).getD k 0)
  obtain ⟨hn', hsamples⟩ := process_samples hu'
  -- the length divides into the instants that were interleaved
  have hn : n' = n := by
    rw [hn', Int.toNat_natCast, hlen]
    exact Nat.mul_div_cancel_left n hpos
  subst hn
  refine ⟨u', hu', ?_⟩
  intro id hid i hi
  obtain ⟨col, hcolumn, -, hcol⟩ := hsamples id hid
  rw [hcol i hi, htype]
  show CFloat.ofBits (.ofNat 32 (Bytes.readLE _ (4 * _) 4)) = _
  rw [R2memO.readLE_process (u := ⟨u.m_pMicInfo_In⟩) hi hcolumn, BitVec.ofNat_toNat,
    BitVec.setWidth_eq]
  rfl

end R2memI

end BlackSiren
