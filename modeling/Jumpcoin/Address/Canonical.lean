import Jumpcoin.Address.Destination

/-!
# CashAddr texts are canonical

What is decoded is encoded again to the same text, up to the case of the letters and the name in
front, which may be left out.

Each layer is undone by the next: the eight values of a good checksum are those that
`CreateChecksum` finds, since checksums are linear; groups of five bits with zeros for padding are
what `ConvertBits` makes of the bytes in them; and the version byte is made of the type and of the
size that it announces.
-/

namespace Jumpcoin

open Codec Radix ConvertBits CashAddr List

namespace CashAddr

/-! ## Characters -/

def toLower (c : UInt8) : UInt8 :=
  if isUpper c then lowerCase c else c

lemma CHARSET_value {c : UInt8} (hc : c ≤ 127) (h : CHARSET_REV.getD c.toNat (-1) ≠ -1) :
    CHARSET.getD (UInt8.ofInt (CHARSET_REV.getD c.toNat (-1))).toNat 0 = toLower c := by
  have hall : ∀ n < 128, CHARSET_REV.getD n (-1) ≠ -1 →
      CHARSET.getD (UInt8.ofInt (CHARSET_REV.getD n (-1))).toNat 0 = toLower (UInt8.ofNat n) := by
    decide +kernel
  have hlt : c.toNat < 128 := Nat.lt_succ_of_le (UInt8.le_iff_toNat_le.mp hc)
  have hchar := hall c.toNat hlt h
  rwa [UInt8.ofNat_toNat] at hchar

lemma map_CHARSET_of_decodeValues {str values : Bytes} (h : decodeValues str = some values) :
    values.map (fun c => CHARSET.getD c.toNat 0) = str.map toLower := by
  induction str generalizing values with
  | nil =>
    obtain rfl : values = [] := by simpa [decodeValues] using h.symm
    rfl
  | cons c str ih =>
    simp only [decodeValues] at h
    split_ifs at h with hbad
    rw [not_or, UInt8.not_lt] at hbad
    obtain ⟨rest, hrest, rfl⟩ := Option.map_eq_some_iff.mp h
    rw [map_cons, map_cons, CHARSET_value hbad.1 hbad.2, ih hrest]

lemma toLower_letter {c : UInt8} (h : isLower c || isUpper c) : toLower c = lowerCase c := by
  unfold toLower
  split_ifs with hupper
  · rfl
  · have hlower : isLower c = true := by simpa [hupper] using h
    exact (isLower_facts hlower).2.2.symm

def fullText (name str : Bytes) : Bytes :=
  if 0x3a ∈ str then str.map toLower else name ++ 0x3a :: str.map toLower

section

variable {str defaultPrefix pre payload : Bytes}
  (h : decode str defaultPrefix = .returned (pre, payload)) (hne : payload ≠ [])
include h hne

lemma decode_eq_returned :
    ∃ s values, scan str 0 { } = some s ∧ decodeValues (valuePart str) = some values ∧
      pre = namePart str defaultPrefix ∧ verifyChecksum pre values = true ∧ 8 ≤ values.length ∧
      payload = values.take (values.length - 8) := by
  rw [decode_eq] at h
  cases htext : textValues str with
  | none => simp_all
  | some values =>
    obtain ⟨s, hscan, hvalues⟩ := textValues_eq_some htext
    simp only [htext] at h
    refine ⟨s, values, hscan, hvalues, ?_⟩
    split_ifs at h with hverify hshort
    · simp_all
    · obtain ⟨rfl, rfl⟩ : namePart str defaultPrefix = pre ∧
          values.take (values.length - 8) = payload := by simpa using h
      exact ⟨rfl, by simpa using hverify, by omega, rfl⟩

/-- What a text that is decoded consists of. -/
lemma encode_of_decode : Groups 5 payload ∧ encode pre payload = fullText pre str := by
  obtain ⟨s, values, hscan, hvalues, hpre, hverify, hlong, hpayload⟩ := decode_eq_returned h hne
  have hgroups := decodeValues_groups hvalues
  set check := values.drop (values.length - 8) with hcheck
  have hsplit : payload ++ check = values := by rw [hpayload, hcheck, take_append_drop]
  have hunique : check = createChecksum pre payload := by
    refine eq_createChecksum (fun c hc => hgroups c (mem_of_mem_drop hc)) ?_ ?_
    · rw [hcheck, length_drop]
      omega
    · rwa [hsplit]
  refine ⟨fun c hc => hgroups c (mem_of_mem_take (hpayload ▸ hc)), ?_⟩
  rw [encode, ← hunique, hsplit, map_CHARSET_of_decodeValues hvalues]
  rcases scan_eq_some hscan with ⟨hnot, -⟩ | ⟨a, b, rfl, ha, -⟩
  · rw [valuePart, fullText, if_neg hnot, if_neg hnot]
  · obtain ⟨hpart, hvalue⟩ := parts_append (b := b) ha defaultPrefix
    have hname : a.map lowerCase = a.map toLower :=
      map_congr_left fun c hc => (toLower_letter (ha c hc)).symm
    have hcolon : toLower 0x3a = 0x3a := by decide
    simp [fullText, hvalue, hpre, hpart, hname, hcolon]

end

end CashAddr

/-! ## The content -/

lemma version_parts {version : UInt8} (h : version &&& 0x80 = 0) :
    encodedSize (hashSize version) = some (version &&& 0x07) ∧
      (version >>> 3 &&& 0x1f) <<< 3 ||| (version &&& 0x07) = version := by
  have hall : ∀ n : Fin 256, UInt8.ofFin n &&& 0x80 = 0 →
      encodedSize (hashSize (UInt8.ofFin n)) = some (UInt8.ofFin n &&& 0x07) ∧
      (UInt8.ofFin n >>> 3 &&& 0x1f) <<< 3 ||| (UInt8.ofFin n &&& 0x07) = UInt8.ofFin n := by
    decide +kernel
  exact hall version.toFin h

/-- Groups of five bits with zeros for padding are packed again. -/
lemma convertBits_unpacked {payload : Bytes} (hgroups : Groups 5 payload)
    (hextra : payload.length * 5 % 8 < 5)
    (hzero : payload.getLastD 0 &&& UInt8.ofNat (2 ^ (payload.length * 5 % 8) - 1) = 0) :
    (convertBits 8 5 true (convertBits 5 8 false payload).1).1 = payload := by
  obtain ⟨bits, hbytes, hbits, hsize, hvalue⟩ :=
    convertBits_truncate 5 8 (by decide) (by decide) hgroups
  obtain ⟨out, padding, hout, hgroups', hpadding, hsize', hvalue'⟩ :=
    convertBits_pad 8 5 (by decide) (by decide) hbytes
  have hrest : payload.length * 5 % 8 = bits := by omega
  rw [hrest] at hextra hzero
  have hlength : out.length = payload.length := by omega
  have hsame : padding = bits := by omega
  subst hsame
  rw [hvalue, Nat.div_mul_cancel ((padding_eq_zero_iff hextra).mp hzero)] at hvalue'
  rw [hout]
  exact eq_of_groupsValue_eq (by decide) hlength hgroups' hgroups hvalue'

lemma packAddrData_unpackAddrData {payload : Bytes} (hgroups : Groups 5 payload)
    (hhash : (unpackAddrData payload).hash ≠ []) :
    packAddrData (unpackAddrData payload).hash (unpackAddrData payload).type = some payload := by
  revert hhash
  simp only [unpackAddrData]
  split_ifs with hempty hextra hzero hreserved hlength
  case neg =>
    intro hhash
    have hback := convertBits_unpacked hgroups (by omega) (not_not.mp hzero)
    obtain ⟨version, hash, hdata⟩ : ∃ version hash,
        (convertBits 5 8 false payload).1 = version :: hash :=
      exists_cons_of_length_eq_add_one (not_not.mp hlength)
    simp only [hdata, headD_cons, tail_cons, length_cons, not_not,
      Nat.add_right_cancel_iff] at hback hreserved hlength ⊢
    obtain ⟨hsize, hversion⟩ := version_parts hreserved
    rw [packAddrData, hlength, hsize, Option.bind_eq_bind, Option.bind_some, hversion, hback]
  all_goals exact fun hhash => absurd rfl hhash

lemma encode_of_decodeCashAddrContent {params : AddressParams} {str : Bytes}
    {content : CashAddrContent} (h : decodeCashAddrContent str params = .returned content)
    (hhash : content.hash ≠ []) :
    ∃ payload, packAddrData content.hash content.type = some payload ∧
      encode params.cashaddrPrefix payload = fullText params.cashaddrPrefix str := by
  unfold decodeCashAddrContent at h
  split at h
  · simp at h
  · simp at h
  · rename_i pre payload hdecode
    split_ifs at h with hpre
    · obtain rfl : { } = content := Outcome.returned.inj h
      exact absurd rfl hhash
    · obtain rfl : unpackAddrData payload = content := Outcome.returned.inj h
      have hne : payload ≠ [] := by
        rintro rfl
        exact hhash rfl
      obtain ⟨hgroups, hencode⟩ := encode_of_decode hdecode hne
      rw [not_not.mp hpre] at hencode
      exact ⟨payload, packAddrData_unpackAddrData hgroups hhash, hencode⟩

/-- A text with a hash in it is, up to the case of its letters and the name that may be left out,
the encoding of what it is decoded to. So two such texts with the same content are the same. -/
theorem decodeCashAddrContent_canonical (params : AddressParams) (str : Bytes)
    (content : CashAddrContent) (h : decodeCashAddrContent str params = .returned content)
    (hhash : content.hash ≠ []) :
    (∃ payload, packAddrData content.hash content.type = some payload ∧
      encode params.cashaddrPrefix payload = fullText params.cashaddrPrefix str) ∧
    ∀ str', decodeCashAddrContent str' params = .returned content →
      fullText params.cashaddrPrefix str' = fullText params.cashaddrPrefix str := by
  obtain ⟨payload, hpack, hencode⟩ := encode_of_decodeCashAddrContent h hhash
  refine ⟨⟨payload, hpack, hencode⟩, fun str' h' => ?_⟩
  obtain ⟨payload', hpack', hencode'⟩ := encode_of_decodeCashAddrContent h' hhash
  obtain rfl : payload = payload' := Option.some.inj (hpack.symm.trans hpack')
  rw [← hencode, ← hencode']

/-- The address of the key hash of zeros. -/
theorem decodeCashAddrContent_canonical_zeros :
    ∃ payload, packAddrData (List.replicate 20 0) PUBKEY_TYPE = some payload ∧
      encode Network.main.params.cashaddrPrefix payload =
        fullText Network.main.params.cashaddrPrefix
          (encode Network.main.params.cashaddrPrefix payload) := by
  obtain ⟨payload, hpack⟩ := packAddrData_hash (List.Vector.replicate 20 0) PUBKEY_TYPE
  have hdecode := decodeCashAddrContent_encode Network.main.name (by decide) hpack
  obtain ⟨payload', hpack', hencode⟩ :=
    (decodeCashAddrContent_canonical Network.main.params _ _ hdecode (by decide)).1
  obtain rfl : payload = payload' := Option.some.inj (hpack.symm.trans hpack')
  exact ⟨payload, hpack, hencode⟩

end Jumpcoin
