import Mathlib
import PiDeck.History.Model

/-! The two binary forms of records: blocks, which are decoded whole or not at all, and the active
segment, which may end in a torn record and is recovered up to it. -/
namespace PiDeck.History
open PiDeck.Storage

def asciiBytes (text : String) : Bytes := text.toList.map fun c => UInt8.ofNat c.toNat

def blockMagic : Bytes := asciiBytes "YAADEH02"
def activeMagic : Bytes := asciiBytes "YAADEA02"
def blockHeaderBytes : ℕ := 16
def recordHeaderBytes : ℕ := 12
def activeRecordHeaderBytes : ℕ := 16

/-- The FNV-1a hash of the sequence and the data, by wrapping 32-bit arithmetic. -/
def activeChecksum (sequence : ℕ) (data : Bytes) : UInt32 :=
  (toBigEndian 8 sequence ++ data).foldl (fun hash byte => (hash ^^^ byte.toUInt32) * 16777619)
    2166136261

/-! ### Blocks -/

def encodeRecord (record : HistoryRecord) : Bytes :=
  toBigEndian 8 record.sequence ++ toBigEndian 4 record.data.length ++ record.data

/-- The records of a block, each past the one before. -/
def encodeBody : ℕ → List HistoryRecord → Except HistoryError Bytes
  | _, [] => .ok []
  | previous, record :: records =>
    if record.sequence = 0 ∨ record.sequence ≤ previous then
      .error (.corrupt "non-increasing history sequence")
    else if record.data = [] ∨ maxRecordBytes < record.data.length then
      .error (.corrupt "invalid history payload length")
    else
      match encodeBody record.sequence records with
      | .error e => .error e
      | .ok rest => .ok (encodeRecord record ++ rest)

def blockHeader (count : ℕ) : Bytes :=
  blockMagic ++ (UInt8.ofNat archiveVersion :: [0, 0, 0]) ++ toBigEndian 4 count

/-- `encode_records_into`. -/
def encodeRecords (records : List HistoryRecord) : Except HistoryError Bytes :=
  if records = [] ∨ maxBlockRecords < records.length then
    .error (.corrupt "invalid history block record count")
  else
    match encodeBody 0 records with
    | .error e => .error e
    | .ok body => .ok (blockHeader records.length ++ body)

/-- The loop of `decode_records` over the bytes that are left. -/
def decodeBody : ℕ → ℕ → Bytes → Except HistoryError (List HistoryRecord)
  | 0, _, rest => if rest = [] then .ok [] else .error (.corrupt "trailing history block bytes")
  | count + 1, previous, bytes =>
    if bytes.length < recordHeaderBytes then
      .error (.corrupt "truncated history record header")
    else
      let sequence := ofBigEndian (bytes.take 8)
      let length := ofBigEndian ((bytes.drop 8).take 4)
      let payload := bytes.drop recordHeaderBytes
      if sequence = 0 ∨ sequence ≤ previous ∨ length = 0 ∨ maxRecordBytes < length then
        .error (.corrupt "invalid history record")
      else if payload.length < length then .error (.corrupt "truncated history payload")
      else
        match decodeBody count sequence (payload.drop length) with
        | .error e => .error e
        | .ok records => .ok (⟨sequence, payload.take length⟩ :: records)

def decodeRecords (encoded : Bytes) : Except HistoryError (List HistoryRecord) :=
  if encoded.length < blockHeaderBytes ∨ encoded.take 8 ≠ blockMagic then
    .error (.corrupt "invalid history block header")
  else if (encoded.drop 8).take 4 ≠ UInt8.ofNat archiveVersion :: [0, 0, 0] then
    .error (.corrupt "unsupported history block version")
  else
    let count := ofBigEndian ((encoded.drop 12).take 4)
    if count = 0 ∨ maxBlockRecords < count then
      .error (.corrupt "invalid history block record count")
    else decodeBody count 0 (encoded.drop blockHeaderBytes)

theorem HistoryRecord.Valid.sequence_lt {record : HistoryRecord} (h : record.Valid) :
    record.sequence < 256 ^ 8 := h.sequence.trans_le (by norm_num)

theorem HistoryRecord.Valid.length_lt {record : HistoryRecord} (h : record.Valid) :
    record.data.length < 256 ^ 4 := h.length.trans_lt (by norm_num [maxRecordBytes])

theorem HistoryRecord.Valid.length_pos {record : HistoryRecord} (h : record.Valid) :
    0 < record.data.length := List.length_pos_of_ne_nil h.nonempty

theorem encodeBody_ordered {start : ℕ} {records : List HistoryRecord}
    (h : Ordered start records) : encodeBody start records = .ok (records.flatMap encodeRecord) := by
  induction records generalizing start with
  | nil => rfl
  | cons record records ih =>
    obtain ⟨hlt, hvalid, hrest⟩ := h
    have hsequence : ¬(record.sequence = 0 ∨ record.sequence ≤ start) := by omega
    have hdata : ¬(record.data = [] ∨ maxRecordBytes < record.data.length) := by
      simpa [hvalid.nonempty] using hvalid.length
    simp only [encodeBody, if_neg hsequence, if_neg hdata, ih hrest, List.flatMap_cons]

theorem decodeBody_flatMap {start : ℕ} {records : List HistoryRecord} (h : Ordered start records) :
    decodeBody records.length start (records.flatMap encodeRecord) = .ok records := by
  induction records generalizing start with
  | nil => rfl
  | cons record records ih =>
    obtain ⟨hlt, hvalid, hrest⟩ := h
    have hpos := hvalid.length_pos
    have hlong : ¬(((record :: records).flatMap encodeRecord).length < recordHeaderBytes) := by
      simp [encodeRecord, recordHeaderBytes]
      omega
    have hsequence : ofBigEndian (((record :: records).flatMap encodeRecord).take 8) =
        record.sequence := by
      simp [encodeRecord, ofBigEndian_toBigEndian hvalid.sequence_lt]
    have hlength : ofBigEndian ((((record :: records).flatMap encodeRecord).drop 8).take 4) =
        record.data.length := by
      simp [encodeRecord, ofBigEndian_toBigEndian hvalid.length_lt]
    have hpayload : ((record :: records).flatMap encodeRecord).drop recordHeaderBytes =
        record.data ++ records.flatMap encodeRecord := by
      simp [encodeRecord, List.drop_append, recordHeaderBytes]
    have hok : ¬(record.sequence = 0 ∨ record.sequence ≤ start ∨ record.data.length = 0 ∨
        maxRecordBytes < record.data.length) := by
      have := hvalid.length
      omega
    have hfits : ¬((record.data ++ records.flatMap encodeRecord).length < record.data.length) := by
      simp
    simp only [List.length_cons, decodeBody, if_neg hlong, hsequence, hlength, hpayload, if_neg hok,
      if_neg hfits, List.drop_left, List.take_left, ih hrest]

/-- A block that can be encoded is decoded to its records. -/
theorem decodeRecords_encodeRecords {records : List HistoryRecord} {encoded : Bytes}
    (h : Ordered 0 records) (hencoded : encodeRecords records = .ok encoded) :
    decodeRecords encoded = .ok records := by
  simp only [encodeRecords, encodeBody_ordered h] at hencoded
  split at hencoded
  · cases hencoded
  · rename_i hcount
    push Not at hcount
    obtain ⟨hne, hmax⟩ := hcount
    obtain rfl := Except.ok.inj hencoded
    have hmagic : blockMagic.length = 8 := rfl
    have hbytes : records.length < 256 ^ 4 := hmax.trans_lt (by norm_num [maxBlockRecords])
    have hvalue : ofBigEndian (toBigEndian 4 records.length) = records.length :=
      ofBigEndian_toBigEndian hbytes
    have hpos : records.length ≠ 0 := by simpa using hne
    have hcount' : ¬(records.length = 0 ∨ maxBlockRecords < records.length) := by omega
    have hheader : ¬((blockHeader records.length ++ records.flatMap encodeRecord).length <
        blockHeaderBytes ∨
        (blockHeader records.length ++ records.flatMap encodeRecord).take 8 ≠ blockMagic) := by
      simp [blockHeader, blockHeaderBytes, hmagic]
      omega
    have hversion : ¬(((blockHeader records.length ++ records.flatMap encodeRecord).drop 8).take 4 ≠
        UInt8.ofNat archiveVersion :: [0, 0, 0]) := by
      simp [blockHeader, hmagic, List.take_append]
    have hdropped : ((blockHeader records.length ++ records.flatMap encodeRecord).drop 12).take 4 =
        toBigEndian 4 records.length := by
      simp [blockHeader, hmagic, List.take_append, List.drop_append]
    have hbody : (blockHeader records.length ++ records.flatMap encodeRecord).drop blockHeaderBytes =
        records.flatMap encodeRecord := by
      simp [blockHeader, blockHeaderBytes, hmagic, List.drop_append]
    simp only [decodeRecords, if_neg hheader, if_neg hversion, hdropped, hvalue, if_neg hcount',
      hbody, decodeBody_flatMap h]

/-- Only a block of too many records cannot be encoded. -/
theorem encodeRecords_ok {records : List HistoryRecord} (h : Ordered 0 records)
    (hne : records ≠ []) (hmax : records.length ≤ maxBlockRecords) :
    encodeRecords records = .ok (blockHeader records.length ++ records.flatMap encodeRecord) := by
  have hcount : ¬(records = [] ∨ maxBlockRecords < records.length) := by
    simpa [hne] using hmax
  simp only [encodeRecords, if_neg hcount, encodeBody_ordered h]

/-- The records that a block can hold. -/
def BlockRecords (records : List HistoryRecord) : Prop :=
  Ordered 0 records ∧ records ≠ [] ∧ records.length ≤ maxBlockRecords

theorem encodeRecord_decoded {bytes : Bytes} (hlong : ¬bytes.length < recordHeaderBytes)
    (hfits : ¬(bytes.drop recordHeaderBytes).length < ofBigEndian ((bytes.drop 8).take 4)) :
    encodeRecord ⟨ofBigEndian (bytes.take 8), (bytes.drop recordHeaderBytes).take
      (ofBigEndian ((bytes.drop 8).take 4))⟩ ++
        (bytes.drop recordHeaderBytes).drop (ofBigEndian ((bytes.drop 8).take 4)) = bytes := by
  simp only [recordHeaderBytes] at hlong hfits ⊢
  have hsequence : toBigEndian 8 (ofBigEndian (bytes.take 8)) = bytes.take 8 :=
    toBigEndian_ofBigEndian (by rw [List.length_take]; omega)
  have hlength : toBigEndian 4 (ofBigEndian ((bytes.drop 8).take 4)) = (bytes.drop 8).take 4 :=
    toBigEndian_ofBigEndian (by rw [List.length_take, List.length_drop]; omega)
  have hdata : ((bytes.drop 12).take (ofBigEndian ((bytes.drop 8).take 4))).length =
      ofBigEndian ((bytes.drop 8).take 4) := by
    rw [List.length_take]
    omega
  rw [encodeRecord, hdata, hsequence, hlength, List.append_assoc, List.take_append_drop,
    List.append_assoc, show 12 = 8 + 4 from rfl, ← List.drop_drop, List.take_append_drop,
    List.take_append_drop]

/-- What the loop accepts is in order, and its bytes are those of its records. -/
theorem decodeBody_ok {count previous : ℕ} {bytes : Bytes} {records : List HistoryRecord}
    (h : decodeBody count previous bytes = .ok records) :
    Ordered previous records ∧ records.length = count ∧ records.flatMap encodeRecord = bytes := by
  induction count generalizing previous bytes records with
  | zero =>
    simp only [decodeBody] at h
    split at h
    · rename_i hrest
      obtain rfl := Except.ok.inj h
      exact ⟨trivial, rfl, hrest.symm⟩
    · cases h
  | succ count ih =>
    simp only [decodeBody] at h
    split at h
    · cases h
    rename_i hlong
    split at h
    · cases h
    rename_i hok
    split at h
    · cases h
    rename_i hfits
    split at h
    · cases h
    rename_i rest hrest
    obtain rfl := Except.ok.inj h
    obtain ⟨hordered, hcount, hbytes⟩ := ih hrest
    push Not at hok
    obtain ⟨-, hlt, hlength, hmax⟩ := hok
    have hdata : ((bytes.drop recordHeaderBytes).take
        (ofBigEndian ((bytes.drop 8).take 4))).length = ofBigEndian ((bytes.drop 8).take 4) := by
      rw [List.length_take]
      omega
    have htake : (bytes.take 8).length = 8 := by
      simp only [recordHeaderBytes] at hlong
      rw [List.length_take]
      omega
    refine ⟨⟨hlt, ⟨?_, ?_, hdata.trans_le hmax⟩, hordered⟩, by rw [List.length_cons, hcount], ?_⟩
    · have hbound := ofBigEndian_lt (bytes.take 8)
      rw [htake] at hbound
      exact hbound.trans_le (by norm_num)
    · intro hnil
      dsimp only at hnil
      rw [hnil] at hdata
      exact hlength hdata.symm
    · rw [List.flatMap_cons, hbytes]
      exact encodeRecord_decoded hlong hfits

theorem decodeRecords_ok {encoded : Bytes} {records : List HistoryRecord}
    (h : decodeRecords encoded = .ok records) :
    BlockRecords records ∧ encodeRecords records = .ok encoded := by
  simp only [decodeRecords] at h
  split at h
  · cases h
  rename_i hheader
  split at h
  · cases h
  rename_i hversion
  split at h
  · cases h
  rename_i hcount
  push Not at hheader hversion hcount
  obtain ⟨hordered, hlength, hbytes⟩ := decodeBody_ok h
  have hne : records ≠ [] := by
    rintro rfl
    exact hcount.1 hlength.symm
  have hmax : records.length ≤ maxBlockRecords := hlength ▸ hcount.2
  refine ⟨⟨hordered, hne, hmax⟩, ?_⟩
  have hlong := hheader.1
  simp only [blockHeaderBytes] at hlong
  have hcountBytes : toBigEndian 4 records.length = (encoded.drop 12).take 4 := by
    rw [hlength]
    refine toBigEndian_ofBigEndian ?_
    rw [List.length_take, List.length_drop]
    omega
  rw [encodeRecords_ok hordered hne hmax, hbytes, blockHeader, hcountBytes, ← hheader.2, ← hversion]
  congr 1
  rw [List.append_assoc, List.append_assoc, show blockHeaderBytes = 8 + (4 + 4) from rfl,
    ← List.drop_drop, ← List.drop_drop, show 12 = 8 + 4 from rfl, ← List.drop_drop,
    List.take_append_drop, List.take_append_drop, List.take_append_drop]

/-- The records of a block are got back from it, and a block that is accepted is the one that its
records are encoded to. -/
theorem block_codec_exact (records : List HistoryRecord) (encoded : Bytes) :
    (BlockRecords records → ∃ block, encodeRecords records = .ok block ∧
      decodeRecords block = .ok records) ∧
    (decodeRecords encoded = .ok records →
      BlockRecords records ∧ encodeRecords records = .ok encoded) := by
  refine ⟨fun ⟨hordered, hne, hmax⟩ => ?_, decodeRecords_ok⟩
  have hencoded := encodeRecords_ok hordered hne hmax
  exact ⟨_, hencoded, decodeRecords_encodeRecords hordered hencoded⟩

/-! ### The active segment -/

/-- What `append_active_record` writes, in four pieces. -/
def activeRecordPieces (sequence : ℕ) (data : Bytes) : List Bytes :=
  [toBigEndian 8 sequence, toBigEndian 4 data.length,
    toBigEndian 4 (activeChecksum sequence data).toNat, data]

def encodeActive (record : HistoryRecord) : Bytes :=
  (activeRecordPieces record.sequence record.data).flatten

/-- The loop of `open_active_segment` over the bytes that are left: the complete records in front,
and the bytes from the first one that is not. -/
def scanActive : ℕ → ℕ → Bytes → List HistoryRecord × Bytes
  | 0, _, bytes => ([], bytes)
  | fuel + 1, previous, bytes =>
    if bytes.length < activeRecordHeaderBytes then ([], bytes)
    else
      let sequence := ofBigEndian (bytes.take 8)
      let length := ofBigEndian ((bytes.drop 8).take 4)
      let checksum := ofBigEndian ((bytes.drop 12).take 4)
      let payload := bytes.drop activeRecordHeaderBytes
      if sequence = 0 ∨ sequence ≤ previous ∨ length = 0 ∨ maxRecordBytes < length ∨
          payload.length < length ∨
          (activeChecksum sequence (payload.take length)).toNat ≠ checksum then ([], bytes)
      else
        let scanned := scanActive fuel sequence (payload.drop length)
        (⟨sequence, payload.take length⟩ :: scanned.1, scanned.2)

/-- A record that was written in part. -/
def Torn (bytes : Bytes) : Prop :=
  ∃ record : HistoryRecord, record.Valid ∧ bytes <+: encodeActive record ∧
    bytes ≠ encodeActive record

theorem length_encodeActive (record : HistoryRecord) :
    (encodeActive record).length = activeRecordHeaderBytes + record.data.length := by
  simp [encodeActive, activeRecordPieces, activeRecordHeaderBytes]
  omega

theorem ofBigEndian_activeChecksum (sequence : ℕ) (data : Bytes) :
    ofBigEndian (toBigEndian 4 (activeChecksum sequence data).toNat) =
      (activeChecksum sequence data).toNat := by
  refine ofBigEndian_toBigEndian ?_
  have := (activeChecksum sequence data).toNat_lt
  norm_num
  omega

theorem torn_nil : Torn [] :=
  ⟨⟨0, [0]⟩, ⟨by norm_num, by simp, by norm_num [maxRecordBytes]⟩, List.nil_prefix, by
    simp [encodeActive, activeRecordPieces, toBigEndian]⟩

/-- Nothing is read from a record that was written in part. -/
theorem scanActive_torn {bytes : Bytes} (h : Torn bytes) (fuel previous : ℕ) :
    scanActive fuel previous bytes = ([], bytes) := by
  obtain ⟨record, hvalid, ⟨rest, hrest⟩, hne⟩ := h
  cases fuel with
  | zero => rfl
  | succ fuel =>
    by_cases hshort : bytes.length < activeRecordHeaderBytes
    · simp only [scanActive, if_pos hshort]
    · -- The length field is complete and says more than there is.
      have hlonger : rest ≠ [] := by
        rintro rfl
        exact hne (by simpa using hrest)
      have htotal : bytes.length + rest.length = activeRecordHeaderBytes + record.data.length := by
        rw [← length_encodeActive, ← hrest, List.length_append]
      have hrestpos := List.length_pos_of_ne_nil hlonger
      have hlength : ofBigEndian ((bytes.drop 8).take 4) = record.data.length := by
        have hsame : (bytes.drop 8).take 4 = ((bytes ++ rest).drop 8).take 4 := by
          simp only [activeRecordHeaderBytes] at hshort
          rw [List.drop_append_of_le_length (by omega),
            List.take_append_of_le_length (by simp; omega)]
        rw [hsame, hrest]
        simp [encodeActive, activeRecordPieces, ofBigEndian_toBigEndian hvalid.length_lt]
      have hpayload : (bytes.drop activeRecordHeaderBytes).length < record.data.length := by
        rw [List.length_drop]
        omega
      simp only [scanActive, if_neg hshort, hlength]
      rw [if_pos]
      exact .inr (.inr (.inr (.inr (.inl hpayload))))

/-- A complete record is read. -/
theorem scanActive_record {start : ℕ} {record : HistoryRecord} (hlt : start < record.sequence)
    (hvalid : record.Valid) (fuel : ℕ) (rest : Bytes) :
    scanActive (fuel + 1) start (encodeActive record ++ rest) =
      (record :: (scanActive fuel record.sequence rest).1,
        (scanActive fuel record.sequence rest).2) := by
  have hpos := hvalid.length_pos
  have hlong : ¬((encodeActive record ++ rest).length < activeRecordHeaderBytes) := by
    rw [List.length_append, length_encodeActive]
    omega
  have hsequence : ofBigEndian ((encodeActive record ++ rest).take 8) = record.sequence := by
    simp [encodeActive, activeRecordPieces, ofBigEndian_toBigEndian hvalid.sequence_lt]
  have hlength : ofBigEndian (((encodeActive record ++ rest).drop 8).take 4) =
      record.data.length := by
    simp [encodeActive, activeRecordPieces, ofBigEndian_toBigEndian hvalid.length_lt]
  have hchecksum : ofBigEndian (((encodeActive record ++ rest).drop 12).take 4) =
      (activeChecksum record.sequence record.data).toNat := by
    rw [show 12 = 8 + 4 from rfl, ← List.drop_drop]
    simp [encodeActive, activeRecordPieces, ofBigEndian_activeChecksum]
  have hpayload : (encodeActive record ++ rest).drop activeRecordHeaderBytes =
      record.data ++ rest := by
    rw [activeRecordHeaderBytes, show 16 = 8 + (4 + 4) from rfl, ← List.drop_drop,
      ← List.drop_drop]
    simp [encodeActive, activeRecordPieces]
  have hok : ¬(record.sequence = 0 ∨ record.sequence ≤ start ∨ record.data.length = 0 ∨
      maxRecordBytes < record.data.length ∨
      (record.data ++ rest).length < record.data.length ∨
      (activeChecksum record.sequence record.data).toNat ≠
        (activeChecksum record.sequence record.data).toNat) := by
    have := hvalid.length
    simp only [List.length_append]
    omega
  simp only [scanActive, if_neg hlong, hsequence, hlength, hchecksum, hpayload,
    List.take_left, List.drop_left, if_neg hok]

/-- Complete records are read, and then what follows them. -/
theorem scanActive_flatMap {start : ℕ} {records : List HistoryRecord} (h : Ordered start records)
    (fuel : ℕ) (rest : Bytes) :
    scanActive (fuel + records.length) start (records.flatMap encodeActive ++ rest) =
      (records ++ (scanActive fuel (lastSequenceOf start records) rest).1,
        (scanActive fuel (lastSequenceOf start records) rest).2) := by
  induction records generalizing start with
  | nil => rfl
  | cons record records ih =>
    obtain ⟨hlt, hvalid, hrest⟩ := h
    rw [List.flatMap_cons, List.append_assoc, List.length_cons, ← Nat.add_assoc,
      scanActive_record hlt hvalid, ih hrest, lastSequenceOf_cons]
    rfl

/-- Recovery finds the complete records and stops at the torn one. -/
theorem scanActive_append {start fuel : ℕ} {records : List HistoryRecord} {torn : Bytes}
    (h : Ordered start records) (htorn : Torn torn) (hfuel : records.length ≤ fuel) :
    scanActive fuel start (records.flatMap encodeActive ++ torn) = (records, torn) := by
  obtain ⟨more, rfl⟩ := Nat.exists_eq_add_of_le' hfuel
  rw [scanActive_flatMap h, scanActive_torn htorn, List.append_nil]

/-- What recovery finds and what it leaves are the bytes it was given. -/
theorem scanActive_bytes (fuel start : ℕ) (bytes : Bytes) :
    (scanActive fuel start bytes).1.flatMap encodeActive ++ (scanActive fuel start bytes).2 =
      bytes := by
  induction fuel generalizing start bytes with
  | zero => rfl
  | succ fuel ih =>
    simp only [scanActive]
    split
    · rfl
    · split
      · rfl
      · rename_i hlong hok
        push Not at hok
        obtain ⟨-, -, -, -, hfits, hchecksum⟩ := hok
        simp only [activeRecordHeaderBytes] at hlong hfits hchecksum ⊢
        have hfirst : toBigEndian 8 (ofBigEndian (bytes.take 8)) = bytes.take 8 :=
          toBigEndian_ofBigEndian (by rw [List.length_take]; omega)
        have hsecond : toBigEndian 4 (ofBigEndian ((bytes.drop 8).take 4)) =
            (bytes.drop 8).take 4 :=
          toBigEndian_ofBigEndian (by rw [List.length_take, List.length_drop]; omega)
        have hthird : toBigEndian 4 (ofBigEndian ((bytes.drop 12).take 4)) =
            (bytes.drop 12).take 4 :=
          toBigEndian_ofBigEndian (by rw [List.length_take, List.length_drop]; omega)
        have hdata : ((bytes.drop 16).take (ofBigEndian ((bytes.drop 8).take 4))).length =
            ofBigEndian ((bytes.drop 8).take 4) := by
          rw [List.length_take]
          omega
        rw [List.flatMap_cons, List.append_assoc, ih]
        simp only [encodeActive, activeRecordPieces, List.flatten_cons, List.flatten_nil,
          List.append_nil, hdata, hchecksum, hfirst, hsecond, hthird, List.append_assoc,
          List.take_append_drop]
        rw [show 16 = 12 + 4 from rfl, ← List.drop_drop, List.take_append_drop,
          show 12 = 8 + 4 from rfl, ← List.drop_drop, List.take_append_drop, List.take_append_drop]

/-- What recovery finds is in order, whatever the bytes. -/
theorem scanActive_ordered (fuel start : ℕ) (bytes : Bytes) :
    Ordered start (scanActive fuel start bytes).1 := by
  induction fuel generalizing start bytes with
  | zero => trivial
  | succ fuel ih =>
    simp only [scanActive]
    split
    · trivial
    · split
      · trivial
      · rename_i hlong hok
        push Not at hok
        obtain ⟨-, hlt, hlength, hmax, hfits, -⟩ := hok
        have htake : (bytes.take 8).length = 8 := by
          simp only [activeRecordHeaderBytes] at hlong
          rw [List.length_take]
          omega
        have hdata : ((bytes.drop activeRecordHeaderBytes).take
            (ofBigEndian ((bytes.drop 8).take 4))).length = ofBigEndian ((bytes.drop 8).take 4) := by
          rw [List.length_take]
          omega
        refine ⟨hlt, ⟨?_, ?_, hdata.trans_le hmax⟩, ih _ _⟩
        · have := ofBigEndian_lt (bytes.take 8)
          rw [htake] at this
          exact this.trans_le (by norm_num)
        · intro hnil
          dsimp only at hnil
          rw [hnil] at hdata
          exact hlength hdata.symm

/-! ### Block files -/

/-- The name of the file of a block. -/
def blockFile (firstSequence lastSequence : ℕ) : String :=
  String.ofList (paddedDigits 12 firstSequence ++ '-' :: paddedDigits 12 lastSequence ++
    ".bin.gz".toList)

def temporaryFile (file : String) : String := file ++ ".tmp"

theorem blockFile_inj {first last first' last' : ℕ}
    (h : blockFile first last = blockFile first' last') : first = first' := by
  have := congrArg String.toList h
  simp only [blockFile, String.toList_ofList, List.append_assoc, List.cons_append] at this
  exact (paddedDigits_inj (by decide) this).1

theorem temporaryFile_ne (file : String) (first last : ℕ) :
    temporaryFile file ≠ blockFile first last := by
  intro h
  have := congrArg (fun name => name.toList.reverse.head?) h
  simp [temporaryFile, blockFile] at this

end PiDeck.History
