import Jumpcoin.Address.CashAddr

/-!
# Destinations and their addresses

`cashaddrenc.cpp`, the legacy encoding of `base58.cpp`, and `dstencode.cpp`, which writes one of the
two and reads both.

A text is read as CashAddr first. A legacy address never passes for one: it has too few characters
for the smallest hash, whatever its checksum.

## Main results

* `decodeCashAddrContent_encode`: every type and hash that can be packed is unpacked again.
* `legacy_notCashAddr`: texts of 25 bytes are no CashAddr addresses.
* `destination_roundTrip`: every destination on every network is read back from either encoding.
-/

namespace Jumpcoin

open Codec Radix ConvertBits CashAddr Base58 List

/-! ## Networks -/

/-- The part of `CChainParams` that addresses depend on. -/
structure AddressParams where
  pubkeyAddress : Bytes
  scriptAddress : Bytes
  cashaddrPrefix : Bytes

inductive Network where
  | main
  | testnet
  | regtest

def Network.params : Network → AddressParams
  | .main => ⟨[43], [44], ascii "jumpcoin"⟩
  | .testnet => ⟨[111], [196], ascii "jumptest"⟩
  | .regtest => ⟨[111], [196], ascii "jumpreg"⟩

/-- A txout script template with a specific destination. -/
inductive CTxDestination where
  | noDestination
  | keyID (hash : List.Vector UInt8 20)
  | scriptID (hash : List.Vector UInt8 20)
  deriving DecidableEq

def isValidDestination : CTxDestination → Bool
  | .noDestination => false
  | _ => true

/-! ## CashAddr -/

/-- A value of `CashAddrType`; it is read from five bits. -/
abbrev CashAddrType := UInt8

def PUBKEY_TYPE : CashAddrType := 0
def SCRIPT_TYPE : CashAddrType := 1

structure CashAddrContent where
  type : CashAddrType := 0
  hash : Bytes := []
  deriving DecidableEq

def encodedSize (size : Nat) : Option UInt8 :=
  match size * 8 with
  | 160 => some 0
  | 192 => some 1
  | 224 => some 2
  | 256 => some 3
  | 320 => some 4
  | 384 => some 5
  | 448 => some 6
  | 512 => some 7
  | _ => none

/-- Convert the data part to a 5 bit representation; no value if an exception is thrown. -/
def packAddrData (id : Bytes) (type : CashAddrType) : Option Bytes := do
  let size ← encodedSize id.length
  some (convertBits 8 5 true ((type <<< 3 ||| size) :: id)).1

def encodeCashAddr (dst : CTxDestination) (params : AddressParams) : Option Bytes :=
  match dst with
  | .keyID id => (packAddrData id.toList PUBKEY_TYPE).map (CashAddr.encode params.cashaddrPrefix)
  | .scriptID id => (packAddrData id.toList SCRIPT_TYPE).map (CashAddr.encode params.cashaddrPrefix)
  | .noDestination => some []

def hashSize (version : UInt8) : Nat :=
  let size := 20 + 4 * (version &&& 0x03).toNat
  if version &&& 0x04 ≠ 0 then size * 2 else size

/-- The content of a payload that `cashaddr::Decode` accepted; it is empty if there is something
wrong with it. -/
def unpackAddrData (payload : Bytes) : CashAddrContent :=
  let extrabits := payload.length * 5 % 8
  if payload.isEmpty then { }
  else if 5 ≤ extrabits then { }
  else if payload.getLastD 0 &&& UInt8.ofNat (2 ^ extrabits - 1) ≠ 0 then { }
  else
    let data := (convertBits 5 8 false payload).1
    let version := data.headD 0
    if version &&& 0x80 ≠ 0 then { }
    else if data.length ≠ hashSize version + 1 then { }
    else { type := (version >>> 3) &&& 0x1f, hash := data.tail }

def decodeCashAddrContent (addr : Bytes) (params : AddressParams) : Outcome CashAddrContent :=
  match CashAddr.decode addr params.cashaddrPrefix with
  | .refused => .refused
  | .halted => .halted
  | .returned (pre, payload) =>
    if pre ≠ params.cashaddrPrefix then .returned { } else .returned (unpackAddrData payload)

def decodeCashAddrDestination (content : CashAddrContent) : CTxDestination :=
  -- Only 20 bytes hash are supported now.
  if h : content.hash.length = 20 then
    if content.type = PUBKEY_TYPE then .keyID ⟨content.hash, h⟩
    else if content.type = SCRIPT_TYPE then .scriptID ⟨content.hash, h⟩
    else .noDestination
  else .noDestination

def decodeCashAddr (addr : Bytes) (params : AddressParams) : Outcome CTxDestination :=
  match decodeCashAddrContent addr params with
  | .refused => .refused
  | .halted => .halted
  | .returned content =>
    if content.hash.length = 0 then .returned .noDestination
    else .returned (decodeCashAddrDestination content)

/-! ## Legacy addresses -/

def encodeLegacyAddr (hashes : Hashes) (dst : CTxDestination) (params : AddressParams) :
    Option Bytes :=
  match dst with
  | .keyID id => encodeBase58Check hashes (params.pubkeyAddress ++ id.toList)
  | .scriptID id => encodeBase58Check hashes (params.scriptAddress ++ id.toList)
  | .noDestination => some []

def hashAfter (version data : Bytes) : Option (List.Vector UInt8 20) :=
  if h : data.length = 20 + version.length ∧ version = data.take version.length then
    some ⟨data.drop version.length, by rw [List.length_drop, h.1, Nat.add_sub_cancel_right]⟩
  else none

def decodeLegacyAddr (hashes : Hashes) (str : Bytes) (params : AddressParams) :
    Outcome CTxDestination :=
  match decodeBase58Check hashes str with
  | .refused => .returned .noDestination
  | .halted => .halted
  | .returned data =>
    match hashAfter params.pubkeyAddress data with
    | some hash => .returned (.keyID hash)
    | none =>
      match hashAfter params.scriptAddress data with
      | some hash => .returned (.scriptID hash)
      | none => .returned .noDestination

/-! ## Either -/

def encodeDestination (hashes : Hashes) (dst : CTxDestination) (params : AddressParams)
    (useCashAddr : Bool) : Option Bytes :=
  if useCashAddr then encodeCashAddr dst params else encodeLegacyAddr hashes dst params

def decodeDestination (hashes : Hashes) (addr : Bytes) (params : AddressParams) :
    Outcome CTxDestination :=
  match decodeCashAddr addr params with
  | .refused => .refused
  | .halted => .halted
  | .returned dst =>
    if isValidDestination dst then .returned dst else decodeLegacyAddr hashes addr params

/-! ## CashAddr round trip -/

/-- Sizes that have a code are those that the code announces. -/
lemma encodedSize_eq_some {n : Nat} {size : UInt8} (h : encodedSize n = some size) :
    size.toNat < 8 ∧ hashSize size = n := by
  unfold encodedSize at h
  split at h
  case h_9 => exact absurd h (by simp)
  all_goals
    obtain rfl := Option.some.inj h
    refine ⟨by decide, ?_⟩
    rw [show ∀ a, hashSize a = n ↔ hashSize a * 8 = n * 8 by omega, ‹n * 8 = _›]
    rfl

lemma version_facts {size type : UInt8} (hsize : size.toNat < 8) (htype : type.toNat < 16) :
    (type <<< 3 ||| size) &&& 0x80 = 0 ∧ hashSize (type <<< 3 ||| size) = hashSize size ∧
      ((type <<< 3 ||| size) >>> 3) &&& 0x1f = type := by
  have hall : ∀ s < 8, ∀ t < 16,
      (UInt8.ofNat t <<< 3 ||| UInt8.ofNat s) &&& 0x80 = 0 ∧
      hashSize (UInt8.ofNat t <<< 3 ||| UInt8.ofNat s) = hashSize (UInt8.ofNat s) ∧
      ((UInt8.ofNat t <<< 3 ||| UInt8.ofNat s) >>> 3) &&& 0x1f = UInt8.ofNat t := by
    decide +kernel
  have h := hall size.toNat hsize type.toNat htype
  rwa [UInt8.ofNat_toNat, UInt8.ofNat_toNat] at h

/-- The padding is made of zeros just if the value is a multiple. -/
lemma padding_eq_zero_iff {payload : Bytes} {padding : Nat} (hpadding : padding < 5) :
    payload.getLastD 0 &&& UInt8.ofNat (2 ^ padding - 1) = 0 ↔
      2 ^ padding ∣ groupsValue 5 payload := by
  rcases eq_nil_or_concat payload with rfl | ⟨init, last, rfl⟩
  · simp [groupsValue]
  · have h32 : 2 ^ padding ∣ groupsValue 5 init * 2 ^ 5 :=
      Dvd.dvd.mul_left (Nat.pow_dvd_pow 2 hpadding.le) _
    have hmask : (UInt8.ofNat (2 ^ padding - 1)).toNat = 2 ^ padding - 1 := by
      apply UInt8.toNat_ofNat_of_lt'
      have hle : 2 ^ padding ≤ 2 ^ 5 := Nat.pow_le_pow_right (by decide) hpadding.le
      exact (Nat.sub_le _ _).trans_lt (hle.trans_lt (by decide))
    rw [concat_eq_append, groupsValue_concat, Nat.dvd_add_right h32, ← UInt8.toNat_inj]
    simp [hmask, Nat.and_two_pow_sub_one_eq_mod, Nat.dvd_iff_mod_eq_zero]

lemma unpackAddrData_packAddrData {id payload : Bytes} {type : CashAddrType}
    (htype : type.toNat < 16) (h : packAddrData id type = some payload) :
    Groups 5 payload ∧ unpackAddrData payload = ⟨type, id⟩ := by
  obtain ⟨size, hsize, hpayload⟩ := Option.bind_eq_some_iff.mp h
  obtain ⟨hlt, hhash⟩ := encodedSize_eq_some hsize
  obtain ⟨hreserved, hannounced, hkind⟩ := version_facts hlt htype
  set data := (type <<< 3 ||| size) :: id with hdata
  have hbytes : Groups 8 data := fun byte _ => byte.toNat_lt
  obtain ⟨out, padding, hout, hgroups, hpadding, hlength, hvalue⟩ :=
    convertBits_pad 8 5 (by decide) (by decide) hbytes
  have hback := convertBits_convertBits 8 5 (by decide) (by decide) (by decide) hbytes
  rw [hout] at hpayload hback
  obtain rfl := Option.some.inj hpayload
  refine ⟨hgroups, ?_⟩
  have hextra : out.length * 5 % 8 = padding := by omega
  have hmultiple : 2 ^ padding ∣ groupsValue 5 out := hvalue ▸ Nat.dvd_mul_left _ _
  have hne : out.isEmpty = false := by
    rw [isEmpty_eq_false_iff, ← length_pos_iff]
    have hpos : 0 < data.length := by simp [hdata]
    omega
  simp only [unpackAddrData, hextra, hne, hback, (padding_eq_zero_iff hpadding).mpr hmultiple,
    hdata, headD_cons, hreserved, length_cons, hannounced, hhash, hkind, tail_cons]
  simp [Nat.not_le.mpr hpadding]

lemma decodeCashAddrContent_encode {id payload : Bytes} {type : CashAddrType}
    {params : AddressParams} (hname : Name params.cashaddrPrefix) (htype : type.toNat < 16)
    (h : packAddrData id type = some payload) :
    decodeCashAddrContent (CashAddr.encode params.cashaddrPrefix payload) params =
      .returned ⟨type, id⟩ := by
  obtain ⟨hgroups, hunpack⟩ := unpackAddrData_packAddrData htype h
  simp [decodeCashAddrContent, decode_encode hname hgroups, hunpack]

lemma Network.name (network : Network) : Name network.params.cashaddrPrefix := by
  cases network <;> exact ⟨by decide, all_eq_true.mp (by decide)⟩

def ReadsBack (hashes : Hashes) (network : Network) (useCashAddr : Bool) (dst : CTxDestination) :
    Prop :=
  ∃ addr, encodeDestination hashes dst network.params useCashAddr = some addr ∧
    decodeDestination hashes addr network.params = .returned dst

lemma packAddrData_hash (hash : List.Vector UInt8 20) (type : CashAddrType) :
    ∃ payload, packAddrData hash.toList type = some payload := by
  simp [packAddrData, encodedSize]

lemma readsBack_cashAddr (hashes : Hashes) (network : Network) (hash : List.Vector UInt8 20) :
    ReadsBack hashes network true (.keyID hash) ∧
    ReadsBack hashes network true (.scriptID hash) := by
  constructor
  on_goal 1 => obtain ⟨payload, hpack⟩ := packAddrData_hash hash PUBKEY_TYPE
  on_goal 2 => obtain ⟨payload, hpack⟩ := packAddrData_hash hash SCRIPT_TYPE
  all_goals
    refine ⟨CashAddr.encode network.params.cashaddrPrefix payload,
      by simp [encodeDestination, encodeCashAddr, hpack], ?_⟩
    have hcontent := decodeCashAddrContent_encode network.name (by decide) hpack
    simp [decodeDestination, decodeCashAddr, hcontent, decodeCashAddrDestination,
      isValidDestination, PUBKEY_TYPE, SCRIPT_TYPE]

/-! ## Legacy addresses -/

lemma unpackAddrData_short {payload : Bytes} (hgroups : Groups 5 payload)
    (hlength : payload.length ≤ 27) : unpackAddrData payload = { } := by
  obtain ⟨bits, -, -, hsize, -⟩ := convertBits_truncate 5 8 (by decide) (by decide) hgroups
  have hhash : ∀ version, 20 ≤ hashSize version := by
    intro version
    simp only [hashSize]
    split_ifs <;> omega
  have hne : (convertBits 5 8 false payload).1.length ≠
      hashSize ((convertBits 5 8 false payload).1.headD 0) + 1 := by
    have := hhash ((convertBits 5 8 false payload).1.headD 0)
    omega
  simp only [unpackAddrData, hne, ne_eq, not_false_eq_true, if_true, ite_self]

/-- Texts of 25 bytes are no CashAddr addresses. -/
lemma legacy_notCashAddr {vch addr : Bytes} (hvch : vch.length = 25)
    (h : encodeBase58 vch = some addr) (params : AddressParams) :
    decodeCashAddr addr params = .returned .noDestination := by
  obtain ⟨hge, hle⟩ := length_encodeBase58 h
  have halpha : ∀ c ∈ addr, isLower c || isUpper c || isNumber c := by
    have hall : ∀ c ∈ pszBase58, (isLower c || isUpper c || isNumber c) = true :=
      all_eq_true.mp (by decide)
    exact fun c hc => hall c (mem_pszBase58 h c hc)
  obtain ⟨pre, payload, hdecode, hgroups, hpayload⟩ :=
    decode_alphanumeric halpha (by omega) params.cashaddrPrefix
  have hshort : payload.length ≤ 27 := by
    rcases hpayload with rfl | hlength
    · simp
    · omega
  have hempty : ∃ content, decodeCashAddrContent addr params = .returned content ∧
      content.hash = [] := by
    simp only [decodeCashAddrContent, hdecode, unpackAddrData_short hgroups hshort]
    split_ifs <;> exact ⟨_, rfl, rfl⟩
  obtain ⟨content, hcontent, hhash⟩ := hempty
  simp [decodeCashAddr, hcontent, hhash]

lemma hashAfter_append (version : Bytes) (hash : List.Vector UInt8 20) :
    hashAfter version (version ++ hash.toList) = some hash := by
  have hlength : (version ++ hash.toList).length = 20 + version.length := by simp [Nat.add_comm]
  simp only [hashAfter, hlength, take_left, and_self, dif_pos, drop_left]
  rfl

/-- A legacy address with a version of one byte is read as such. -/
lemma decodeDestination_legacy (hashes : Hashes) (params : AddressParams) {version : Bytes}
    (hversion : version.length = 1) (hash : List.Vector UInt8 20) :
    ∃ addr, encodeBase58Check hashes (version ++ hash.toList) = some addr ∧
      decodeBase58Check hashes addr = .returned (version ++ hash.toList) ∧
      decodeDestination hashes addr params = decodeLegacyAddr hashes addr params := by
  obtain ⟨addr, h⟩ : ∃ addr, encodeBase58Check hashes (version ++ hash.toList) = some addr :=
    ⟨_, encodeBase58_eq _⟩
  refine ⟨addr, h, decodeBase58Check_encodeBase58Check h, ?_⟩
  have hnot := legacy_notCashAddr (by simp [hversion]) h params
  simp [decodeDestination, hnot, isValidDestination]

lemma readsBack_legacy (hashes : Hashes) (network : Network) (hash : List.Vector UInt8 20) :
    ReadsBack hashes network false (.keyID hash) ∧
      ReadsBack hashes network false (.scriptID hash) := by
  obtain ⟨hpubkey, hscript, hne⟩ : network.params.pubkeyAddress.length = 1 ∧
      network.params.scriptAddress.length = 1 ∧
      network.params.pubkeyAddress ≠ network.params.scriptAddress := by
    cases network <;> decide
  have hother : hashAfter network.params.pubkeyAddress
      (network.params.scriptAddress ++ hash.toList) = none := by
    simp [hashAfter, hpubkey, hscript, hne]
  have hpubkeyAddr := decodeDestination_legacy hashes network.params hpubkey hash
  have hscriptAddr := decodeDestination_legacy hashes network.params hscript hash
  constructor
  on_goal 1 => obtain ⟨addr, hencode, hcheck, hlegacy⟩ := hpubkeyAddr
  on_goal 2 => obtain ⟨addr, hencode, hcheck, hlegacy⟩ := hscriptAddr
  all_goals
    refine ⟨addr, by simpa [encodeDestination, encodeLegacyAddr] using hencode, ?_⟩
    simp [hlegacy, decodeLegacyAddr, hcheck, hashAfter_append, hother]

/-- Every key and script hash is read back from its address in either encoding, and no text of a
version, a hash and four bytes is read as a CashAddr address. -/
theorem destination_roundTrip (hashes : Hashes) (network : Network) (hash : List.Vector UInt8 20) :
    (∀ useCashAddr, ReadsBack hashes network useCashAddr (.keyID hash) ∧
      ReadsBack hashes network useCashAddr (.scriptID hash)) ∧
    ∀ (version : UInt8) (check : List.Vector UInt8 4),
      ∃ addr, encodeBase58 (version :: hash.toList ++ check.toList) = some addr ∧
        decodeCashAddr addr network.params = .returned .noDestination := by
  refine ⟨fun useCashAddr => ?_, fun version check => ?_⟩
  · cases useCashAddr
    · exact readsBack_legacy hashes network hash
    · exact readsBack_cashAddr hashes network hash
  · have h := encodeBase58_eq (version :: hash.toList ++ check.toList)
    exact ⟨_, h, legacy_notCashAddr (by simp) h network.params⟩

end Jumpcoin
