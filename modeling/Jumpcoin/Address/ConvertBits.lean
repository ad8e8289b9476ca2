import Jumpcoin.Foundation.Codec
import Jumpcoin.Foundation.Radix

/-!
# Groups of bits

`ConvertBits` of `utilstrencodings.h`: a sequence of groups of `frombits` bits as a sequence of
groups of `tobits` bits. Both sequences are written in a base that is a power of two, so what the
loop keeps is one equation between their values: the groups written so far, followed by the `bits`
low bits of the accumulator, are the groups read so far.
-/

namespace Jumpcoin

open Codec Radix List Nat

namespace ConvertBits

/-- The inner loop: write groups while there are enough bits. -/
def emit (tobits acc : Nat) (out : Bytes) (bits : Nat) : Bytes × Nat :=
  if _h : 0 < tobits ∧ tobits ≤ bits then
    emit tobits acc
      (out ++ [UInt8.ofNat ((acc >>> (bits - tobits)) &&& (2 ^ tobits - 1))]) (bits - tobits)
  else (out, bits)
termination_by bits

/-- The loop over the input: the output, the accumulator and the number of bits left in it. -/
def loop (frombits tobits : Nat) : Bytes → Bytes → Nat → Nat → Bytes × Nat × Nat
  | [], out, acc, bits => (out, acc, bits)
  | byte :: rest, out, acc, bits =>
    let acc := ((acc <<< frombits) ||| byte.toNat) &&& (2 ^ (frombits + tobits - 1) - 1)
    let (out, bits) := emit tobits acc out (bits + frombits)
    loop frombits tobits rest out acc bits

/-- The output, and whether all the bits of the input are in it. -/
def convertBits (frombits tobits : Nat) (pad : Bool) (data : Bytes) : Bytes × Bool :=
  let (out, acc, bits) := loop frombits tobits data [] 0 0
  if bits = 0 then (out, true)
  else if pad then
    (out ++ [UInt8.ofNat ((acc <<< (tobits - bits)) &&& (2 ^ tobits - 1))], true)
  else (out, false)

/-! ## The loops -/

def groupsValue (width : Nat) (data : Bytes) : Nat :=
  value (2 ^ width) (data.map UInt8.toNat)

lemma groupsValue_concat (width : Nat) (data : Bytes) (byte : UInt8) :
    groupsValue width (data ++ [byte]) = groupsValue width data * 2 ^ width + byte.toNat := by
  simp only [groupsValue, map_append, map_singleton, value_concat]

lemma mul_add_div_of_lt {a b n : Nat} (h : b < n) : (a * n + b) / n = a := by
  rw [add_comm, add_mul_div_right _ _ (by omega), div_eq_of_lt h, zero_add]

def Groups (width : Nat) (data : Bytes) : Prop :=
  ∀ byte ∈ data, byte.toNat < 2 ^ width

variable {data : Bytes}

/-- Groups are determined by their number and their value. -/
lemma eq_of_groupsValue_eq {width : Nat} {data' : Bytes} (hwidth : 0 < width)
    (hlength : data.length = data'.length) (hdata : Groups width data) (hdata' : Groups width data')
    (h : groupsValue width data = groupsValue width data') : data = data' := by
  apply map_injective_iff.mpr fun _ _ h => UInt8.toNat_inj.mp h
  exact eq_of_value_eq (b := 2 ^ width) (Nat.one_lt_two_pow hwidth.ne') (by simp [hlength])
    (by simpa [Groups] using hdata) (by simpa [Groups] using hdata') h

/-- The groups of `data` have been read; `out` and `bits` bits of `acc` stand for them. -/
structure Regrouped (frombits tobits : Nat) (data out : Bytes) (acc bits : Nat) : Prop where
  groups : Groups tobits out
  size : data.length * frombits = out.length * tobits + bits
  value : groupsValue frombits data = groupsValue tobits out * 2 ^ bits + acc % 2 ^ bits

variable {frombits tobits : Nat}

lemma Groups.concat {group : Nat} (h : Groups tobits data) (htobits : tobits ≤ 8)
    (hgroup : group < 2 ^ tobits) : Groups tobits (data ++ [UInt8.ofNat group]) ∧
      (UInt8.ofNat group).toNat = group := by
  have hfits : group < 256 := hgroup.trans_le (Nat.pow_le_pow_right (by decide) htobits)
  have hnat : (UInt8.ofNat group).toNat = group := UInt8.toNat_ofNat_of_lt' hfits
  refine ⟨fun byte hbyte => ?_, hnat⟩
  rcases mem_append.mp hbyte with hin | hlast
  · exact h byte hin
  · rw [mem_singleton.mp hlast, hnat]
    exact hgroup

variable {out : Bytes} {bits acc : Nat}

lemma Regrouped.push (htobits : tobits ≤ 8)
    (h : Regrouped frombits tobits data out acc (bits + tobits)) :
    Regrouped frombits tobits data
      (out ++ [UInt8.ofNat ((acc >>> bits) &&& (2 ^ tobits - 1))]) acc bits := by
  rw [and_two_pow_sub_one_eq_mod, shiftRight_eq_div_pow]
  obtain ⟨hgroups, hnat⟩ := h.groups.concat htobits
    (Nat.mod_lt (acc / 2 ^ bits) (Nat.two_pow_pos tobits))
  refine ⟨hgroups, ?_, ?_⟩
  · rw [h.size, length_append, length_singleton]
    ring
  · rw [h.value, groupsValue_concat, hnat, pow_add, mod_mul]
    ring

lemma Regrouped.read {byte : UInt8} (hbyte : byte.toNat < 2 ^ frombits) (hbits : bits < tobits)
    (h : Regrouped frombits tobits data out acc bits) :
    Regrouped frombits tobits (data ++ [byte]) out
      (((acc <<< frombits) ||| byte.toNat) &&& (2 ^ (frombits + tobits - 1) - 1))
      (bits + frombits) := by
  refine ⟨h.groups, ?_, ?_⟩
  · rw [length_append, length_singleton, add_mul, h.size]
    ring
  · have hdvd : 2 ^ (bits + frombits) ∣ 2 ^ (frombits + tobits - 1) :=
      pow_dvd_pow 2 (by omega)
    rw [and_two_pow_sub_one_eq_mod, ← shiftLeft_add_eq_or_of_lt hbyte,
      mod_mod_of_dvd _ hdvd, groupsValue_concat, h.value, shiftLeft_eq]
    have hlow : (acc * 2 ^ frombits + byte.toNat) % 2 ^ frombits = byte.toNat := by
      rw [mul_add_mod_self_right, mod_eq_of_lt hbyte]
    rw [add_comm bits, pow_add, mod_mul, hlow, mul_add_div_of_lt hbyte]
    ring

lemma Regrouped.emit (hpos : 0 < tobits) (htobits : tobits ≤ 8)
    (h : Regrouped frombits tobits data out acc bits) :
    Regrouped frombits tobits data (emit tobits acc out bits).1 acc (emit tobits acc out bits).2 ∧
      (ConvertBits.emit tobits acc out bits).2 < tobits := by
  fun_induction ConvertBits.emit tobits acc out bits with
  | case1 out bits hgo ih =>
    apply ih
    apply Regrouped.push htobits
    rwa [Nat.sub_add_cancel hgo.2]
  | case2 out bits hstop => exact ⟨h, by omega⟩

lemma Regrouped.loop {rest : Bytes} (hpos : 0 < tobits) (htobits : tobits ≤ 8)
    (hrest : Groups frombits rest) (hbits : bits < tobits)
    (h : Regrouped frombits tobits data out acc bits) :
    ∃ out' acc' bits', loop frombits tobits rest out acc bits = (out', acc', bits') ∧
      bits' < tobits ∧ Regrouped frombits tobits (data ++ rest) out' acc' bits' := by
  induction rest generalizing data out acc bits with
  | nil => exact ⟨out, acc, bits, rfl, hbits, by rwa [append_nil]⟩
  | cons byte rest ih =>
    obtain ⟨hemit, hlt⟩ := (h.read (hrest byte mem_cons_self) hbits).emit hpos htobits
    obtain ⟨out', acc', bits', hloop, hbits', hend⟩ :=
      ih (fun b hb => hrest b (mem_cons_of_mem _ hb)) hlt hemit
    exact ⟨out', acc', bits', hloop, hbits', by rwa [append_assoc] at hend⟩

/-! ## The conversions -/

variable (frombits tobits)

/-- With padding, the groups stand for the input followed by zero bits. -/
lemma convertBits_pad (hpos : 0 < tobits) (htobits : tobits ≤ 8) (hdata : Groups frombits data) :
    ∃ out padding, convertBits frombits tobits true data = (out, true) ∧ Groups tobits out ∧
      padding < tobits ∧ out.length * tobits = data.length * frombits + padding ∧
      groupsValue tobits out = groupsValue frombits data * 2 ^ padding := by
  obtain ⟨out, acc, bits, hloop, hbits, h⟩ := Regrouped.loop hpos htobits hdata hpos
    (⟨by simp [Groups], by simp, by simp [groupsValue]⟩ : Regrouped frombits tobits [] [] 0 0)
  rw [nil_append] at h
  by_cases hzero : bits = 0
  · subst hzero
    exact ⟨out, 0, by simp [convertBits, hloop], h.groups, hpos, by simp [h.size],
      by simp [h.value, mod_one]⟩
  · have hsplit : 2 ^ tobits = 2 ^ bits * 2 ^ (tobits - bits) := by
      rw [← pow_add, Nat.add_sub_cancel' hbits.le]
    have hgroup : (acc <<< (tobits - bits)) &&& (2 ^ tobits - 1) =
        acc % 2 ^ bits * 2 ^ (tobits - bits) := by
      rw [and_two_pow_sub_one_eq_mod, shiftLeft_eq, hsplit, mul_mod_mul_right]
    obtain ⟨hgroups, hnat⟩ := h.groups.concat htobits
      (Nat.and_lt_two_pow (acc <<< (tobits - bits)) (Nat.sub_one_lt (Nat.two_pow_pos tobits).ne'))
    refine ⟨_, tobits - bits, by simp [convertBits, hloop, hzero], hgroups, by omega, ?_, ?_⟩
    · rw [h.size, length_append, length_singleton, Nat.add_mul]
      omega
    · rw [groupsValue_concat, hnat, hgroup, h.value, hsplit]
      ring

/-- Without padding, the groups stand for the input without its last bits. -/
lemma convertBits_truncate (hpos : 0 < tobits) (htobits : tobits ≤ 8)
    (hdata : Groups frombits data) :
    ∃ bits, Groups tobits (convertBits frombits tobits false data).1 ∧ bits < tobits ∧
      data.length * frombits = (convertBits frombits tobits false data).1.length * tobits + bits ∧
      groupsValue tobits (convertBits frombits tobits false data).1 =
        groupsValue frombits data / 2 ^ bits := by
  obtain ⟨out, acc, bits, hloop, hbits, h⟩ := Regrouped.loop hpos htobits hdata hpos
    (⟨by simp [Groups], by simp, by simp [groupsValue]⟩ : Regrouped frombits tobits [] [] 0 0)
  rw [nil_append] at h
  have hout : (convertBits frombits tobits false data).1 = out := by
    by_cases hzero : bits = 0 <;> simp [convertBits, hloop, hzero]
  rw [hout]
  refine ⟨bits, h.groups, hbits, h.size, ?_⟩
  rw [h.value, mul_add_div_of_lt (Nat.mod_lt acc (Nat.two_pow_pos bits))]

/-- Bytes packed into smaller groups are unpacked again. -/
lemma convertBits_convertBits (hpos : 0 < tobits) (hle : tobits ≤ frombits)
    (hfrombits : frombits ≤ 8) (hdata : Groups frombits data) :
    (convertBits tobits frombits false (convertBits frombits tobits true data).1).1 = data := by
  obtain ⟨out, padding, hout, hgroups, hpadding, hsize, hvalue⟩ :=
    convertBits_pad frombits tobits hpos (hle.trans hfrombits) hdata
  rw [hout]
  obtain ⟨bits, hgroups', hbits, hsize', hvalue'⟩ :=
    convertBits_truncate tobits frombits (hpos.trans_le hle) hfrombits hgroups
  set data' := (convertBits tobits frombits false out).1
  -- both lengths are the quotient by `frombits` of the number of bits in `out`
  have hsame : data.length * frombits + padding = data'.length * frombits + bits := by
    rw [← hsize, hsize']
  have hlength : data'.length = data.length := by
    rw [← mul_add_div_of_lt (a := data'.length) hbits, ← hsame,
      mul_add_div_of_lt (hpadding.trans_le hle)]
  have hbits' : bits = padding := by
    rw [hlength] at hsame
    omega
  subst hbits'
  rw [hvalue, Nat.mul_div_cancel _ (Nat.two_pow_pos _)] at hvalue'
  exact eq_of_groupsValue_eq (by omega) hlength hgroups' hdata hvalue'

end ConvertBits

end Jumpcoin
