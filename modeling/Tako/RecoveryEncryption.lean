import Tako.ByteStrings
import Tako.GoPrelude

/-! # Encrypted recovery streams

A header, one record for each chunk of the plaintext and an empty final record. Key derivation and
authenticated encryption are parameters; `Ideal` assumes that what opens is what `encryptStream`
sealed, under the same key, nonce and associated data.
-/
namespace RecoveryEncryption

open List GoPrelude ByteStrings Nat

def encryptedMagic : Bytes := (chars "TAKOREC1").map fun c => UInt8.ofNat c.toNat
def encryptedVersion : UInt8 := 1
def encryptionChunkSize : ℕ := 2 ^ 20
def maxEncryptedRecord : ℕ := encryptionChunkSize + 32

/-- `Overhead` of AES-GCM, the length of its tag. -/
def overhead : ℕ := 16

def headerLength : ℕ := 33

/-- HKDF under the label of the bundle, and `Seal` and `Open` of AES-GCM, as functions of the key,
the nonce, the text and the associated data. -/
structure Primitives where
  derive : Bytes → Bytes → Bytes
  sealWith : Bytes → Bytes → Bytes → Bytes → Bytes
  openWith : Bytes → Bytes → Bytes → Bytes → Option Bytes

def finalByte (final : Bool) : UInt8 := if final then 1 else 0

/-- The counter is a `uint64`; its eight bytes are those of its value modulo `2 ^ 64`. -/
def recordNonce (noncePrefix : Bytes) (counter : ℕ) : Bytes := noncePrefix ++ bigEndian 8 counter

def recordAAD (header : Bytes) (counter plainLen : ℕ) (final : Bool) : Bytes :=
  header ++ (bigEndian 8 counter ++ (bigEndian 4 plainLen ++ [finalByte final]))

def streamHeader (salt noncePrefix : Bytes) : Bytes :=
  encryptedMagic ++ (encryptedVersion :: (salt ++ (noncePrefix ++ bigEndian 4 encryptionChunkSize)))

def frame (final : Bool) (ciphertext : Bytes) : Bytes :=
  finalByte final :: (bigEndian 4 ciphertext.length ++ ciphertext)

section Streams

variable (P : Primitives) (key header noncePrefix : Bytes)

section

variable (counter : ℕ) (plaintext : Bytes) (final : Bool)

def sealRecord : Bytes :=
  P.sealWith key (recordNonce noncePrefix counter) plaintext
    (recordAAD header counter plaintext.length final)

def writeEncryptedRecord : Bytes :=
  frame final (sealRecord P key header noncePrefix counter plaintext final)

end

/-- The loop of `encryptStream`: the plaintext, finality and counter of each record it writes.
A short read, which is how the end shows, may still bring some bytes. -/
def encryptRecords (counter : ℕ) (plain : Bytes) : List ((Bytes × Bool) × ℕ) :=
  let chunk := plain.take encryptionChunkSize
  let record := if 0 < chunk.length then [((chunk, false), counter)] else []
  if chunk.length < encryptionChunkSize then record ++ [(([], true), counter + record.length)]
  else record ++ encryptRecords (counter + record.length) (plain.drop encryptionChunkSize)
termination_by plain.length
decreasing_by
  rename_i h
  simp only [chunk, length_take, encryptionChunkSize, length_drop] at h ⊢
  omega

def encryptStream (masterKey salt noncePrefix plain : Bytes) : Bytes :=
  let header := streamHeader salt noncePrefix
  header ++ (encryptRecords 0 plain).flatMap fun r =>
    writeEncryptedRecord P (P.derive masterKey salt) header noncePrefix r.2 r.1.1 r.1.2

/-- The error of `io.ReadFull` when too little is left. -/
def shortRead (rest : Bytes) : String := if rest = [] then "EOF" else "unexpected EOF"

/-- The checks of one record and its opening: whether it is final, its plaintext and what follows.
-/
def readRecord (counter : ℕ) (rest : Bytes) : Except String (Bool × Bytes × Bytes) :=
  match rest with
  | flag :: a :: b :: c :: d :: body =>
    let final := flag == 1
    let size := readBigEndian [a, b, c, d]
    let ciphertext := body.take size
    if flag > 1 then .error "encrypted recovery record flag is invalid"
    else if size < overhead ∨ size > maxEncryptedRecord then
      .error "encrypted recovery record size is invalid"
    else if ciphertext.length < size then
      .error ("encrypted recovery is truncated: " ++ shortRead body)
    else if final ∧ size - overhead ≠ 0 then .error "encrypted recovery final record is invalid"
    else
      match P.openWith key (recordNonce noncePrefix counter) ciphertext
          (recordAAD header counter (size - overhead) final) with
      | none => .error "encrypted recovery authentication failed"
      | some plaintext => .ok (final, plaintext, body.drop size)
  | _ => .error ("encrypted recovery is truncated: " ++ shortRead rest)

theorem readRecord_length {rest plaintext after : Bytes}
    (h : readRecord P key header noncePrefix counter rest = .ok (final, plaintext, after)) :
    after.length < rest.length := by
  unfold readRecord at h
  split at h
  · dsimp only at h
    split_ifs at h
    split at h
    · cases h
    · cases h
      simp only [length_drop, length_cons]
      omega
  · cases h

/-- What a writer with `room` for some more bytes takes of a text, or any writer without a limit. -/
def accepted (room : Option ℕ) (text : Bytes) : Bytes :=
  match room with
  | none => text
  | some n => text.take n

/-- The loop of `decryptStream`: what it has written and how it ended. The writer may fail; `room`
is what it still takes. -/
def decryptLoop (counter : ℕ) (rest : Bytes) (room : Option ℕ) : Bytes × Except String Unit :=
  match _hread : readRecord P key header noncePrefix counter rest with
  | .error cause => ([], .error cause)
  | .ok (final, plaintext, after) =>
    if final then
      if after = [] then ([], .ok ()) else ([], .error "encrypted recovery has trailing data")
    else if accepted room plaintext = plaintext then
      let (written, result) := decryptLoop (counter + 1) after (room.map (· - plaintext.length))
      (plaintext ++ written, result)
    else (accepted room plaintext, .error "write failed")
termination_by rest.length
decreasing_by exact readRecord_length P key header noncePrefix _hread

def decryptStream (masterKey input : Bytes) (room : Option ℕ) : Bytes × Except String Unit :=
  let header := input.take headerLength
  let salt := (header.drop 9).take 16
  let noncePrefix := (header.drop 25).take 4
  if input.length < headerLength then ([], .error (shortRead input))
  else if header.take 8 ≠ encryptedMagic ∨ (header.drop 8).take 1 ≠ [encryptedVersion] then
    ([], .error "encrypted recovery header is invalid")
  else if readBigEndian (header.drop 29) ≠ encryptionChunkSize then
    ([], .error "encrypted recovery chunk size is invalid")
  else decryptLoop P (P.derive masterKey salt) header noncePrefix 0 (input.drop headerLength) room

end Streams

structure Sent where
  (salt noncePrefix plain : Bytes)
  salt_length : salt.length = 16
  prefix_length : noncePrefix.length = 4

namespace Sent

variable (P : Primitives) (masterKey : Bytes) (t : Sent)

def header : Bytes := streamHeader t.salt t.noncePrefix

def key : Bytes := P.derive masterKey t.salt

def stream : Bytes := encryptStream P masterKey t.salt t.noncePrefix t.plain

def records : List (Bytes × Bool) :=
  (chunks encryptionChunkSize t.plain).map (·, false) ++ [([], true)]

def encoded (r : (Bytes × Bool) × ℕ) : Bytes :=
  writeEncryptedRecord P (t.key P masterKey) t.header t.noncePrefix r.2 r.1.1 r.1.2

end Sent

theorem encryptRecords_nil : encryptRecords counter [] = [(([], true), counter)] := by
  rw [encryptRecords]
  rfl

variable {t : Sent}

theorem encryptRecords_last (hplain : plain ≠ []) (h : plain.length < encryptionChunkSize) :
    encryptRecords counter plain = [((plain, false), counter), (([], true), counter + 1)] := by
  have htake := take_of_length_le (le_of_lt h)
  rw [encryptRecords]
  simp only [htake]
  rw [if_pos h, if_pos (length_pos_iff.mpr hplain)]
  rfl

theorem encryptRecords_full (h : encryptionChunkSize ≤ plain.length) :
    encryptRecords counter plain = ((plain.take encryptionChunkSize, false), counter) ::
      encryptRecords (counter + 1) (plain.drop encryptionChunkSize) := by
  have htake := length_take_of_le h
  conv_lhs => rw [encryptRecords]
  simp only [htake]
  rfl

theorem encryptRecords_eq : encryptRecords counter plain =
      ((chunks encryptionChunkSize plain).map (·, false) ++ [([], true)]).zipIdx counter := by
  have hsize : 0 < encryptionChunkSize := by decide
  induction plain using chunks.induct encryptionChunkSize generalizing counter with
  | case1 plain h =>
    rw [h.resolve_right hsize.ne', encryptRecords_nil, chunks_nil]
    rfl
  | case2 plain h ih =>
    have hplain : plain ≠ [] := fun hnil => h (.inl hnil)
    rw [chunks_cons hsize hplain]
    by_cases hshort : plain.length < encryptionChunkSize
    · rw [encryptRecords_last hplain hshort, take_of_length_le hshort.le,
        drop_eq_nil_of_le hshort.le, chunks_nil]
      rfl
    · rw [encryptRecords_full (Nat.le_of_not_lt hshort), ih]
      rfl

theorem Sent.records_eq (t : Sent) : encryptRecords 0 t.plain = t.records.zipIdx :=
  encryptRecords_eq

theorem Sent.stream_eq (P : Primitives) (masterKey : Bytes) (t : Sent) :
    t.stream P masterKey = t.header ++ t.records.zipIdx.flatMap (t.encoded P masterKey) := by
  rw [← t.records_eq]
  rfl

theorem Sent.plain_eq (t : Sent) : t.records.flatMap Prod.fst = t.plain := by
  rw [Sent.records, flatMap_append, flatMap_map, flatMap_singleton, append_nil]
  exact flatMap_id.trans (flatten_chunks (by decide) t.plain)

theorem Sent.final_iff_last (h : t.records[i]? = some (m, final)) :
    (final = true ↔ i + 1 = t.records.length) ∧ (final = true → m = []) := by
  have hcount : t.records.length =
      ((chunks encryptionChunkSize t.plain).map (·, false)).length + 1 := by
    rw [Sent.records, length_append, length_singleton]
  rw [Sent.records] at h
  by_cases hi : i < ((chunks encryptionChunkSize t.plain).map (·, false)).length
  · rw [getElem?_append_left hi, getElem?_map, Option.map_eq_some_iff] at h
    obtain ⟨chunk, -, heq⟩ := h
    cases heq
    constructor
    · constructor
      · intro hfalse
        cases hfalse
      · omega
    · intro hfalse
      cases hfalse
  · rw [getElem?_append_right (Nat.le_of_not_lt hi), getElem?_singleton] at h
    split_ifs at h with hzero
    cases h
    exact ⟨⟨fun _ => by omega, fun _ => rfl⟩, fun _ => rfl⟩

theorem Sent.length_header (t : Sent) : t.header.length = headerLength := by
  have hmagic : encryptedMagic.length = 8 := by decide +kernel
  simp only [Sent.header, streamHeader, length_append, length_cons, t.salt_length, t.prefix_length,
    length_bigEndian, hmagic, headerLength]

section Reading

theorem readRecord_ok {rest after : Bytes}
    (h : readRecord P key header noncePrefix counter rest = .ok (final, plaintext, after)) :
    ∃ ciphertext, rest = frame final ciphertext ++ after ∧
      P.openWith key (recordNonce noncePrefix counter) ciphertext
        (recordAAD header counter (ciphertext.length - overhead) final) = some plaintext := by
  unfold readRecord at h
  split at h
  · rename_i flag a b c d body
    dsimp only at h
    split_ifs at h with hflag hsize hlen hfinal
    split at h
    · cases h
    · rename_i text hopen
      cases h
      have htake : (body.take (readBigEndian [a, b, c, d])).length =
          readBigEndian [a, b, c, d] := by
        rw [length_take] at hlen ⊢
        omega
      refine ⟨body.take (readBigEndian [a, b, c, d]), ?_, by rw [htake]; exact hopen⟩
      have hbyte : finalByte (flag == 1) = flag := by
        have hle : flag.toNat ≤ 1 := Nat.le_of_not_lt hflag
        unfold finalByte
        split_ifs with hone
        · exact (beq_iff_eq.mp hone).symm
        · have hne : flag ≠ 1 := fun h1 => hone (beq_iff_eq.mpr h1)
          have hzero : flag.toNat ≠ 1 := fun h1 => hne (UInt8.toNat_inj.mp h1)
          exact UInt8.toNat_inj.mp (show (0 : UInt8).toNat = flag.toNat by simp; omega)
      have hwidth : bigEndian 4 (readBigEndian [a, b, c, d]) = [a, b, c, d] :=
        bigEndian_readBigEndian [a, b, c, d]
      rw [frame, hbyte, htake, hwidth]
      simp [take_append_drop]
  · cases h

theorem readRecord_frame {ciphertext after : Bytes} (hmin : overhead ≤ ciphertext.length)
    (hmax : ciphertext.length ≤ maxEncryptedRecord)
      (hfinal : final = true → ciphertext.length = overhead)
    (hopen : P.openWith key (recordNonce noncePrefix counter) ciphertext
      (recordAAD header counter (ciphertext.length - overhead) final) = some plaintext) :
    readRecord P key header noncePrefix counter (frame final ciphertext ++ after) =
      .ok (final, plaintext, after) := by
  obtain ⟨a, b, c, d, hbytes⟩ : ∃ a b c d, bigEndian 4 ciphertext.length = [a, b, c, d] := by
    exact ⟨_, _, _, _, rfl⟩
  have hsize : readBigEndian [a, b, c, d] = ciphertext.length := by
    rw [← hbytes, readBigEndian_bigEndian]
    refine mod_eq_of_lt (lt_of_le_of_lt hmax ?_)
    decide
  have hflag : (finalByte final == 1) = final ∧ ¬ finalByte final > 1 := by cases final <;> decide
  have hframe : frame final ciphertext ++ after = finalByte final :: a :: b :: c :: d ::
      (ciphertext ++ after) := by
    rw [frame, hbytes]
    simp
  rw [hframe]
  simp only [readRecord, hsize, hflag.1, take_left', drop_left']
  rw [if_neg hflag.2, if_neg (by omega), if_neg (lt_irrefl _),
    if_neg (by rintro ⟨hf, hne⟩; have := hfinal hf; omega), hopen]

end Reading

theorem decryptLoop_ok {after : Bytes}
    (h : readRecord P key header noncePrefix counter rest = .ok (final, plaintext, after)) :
    decryptLoop P key header noncePrefix counter rest room = if final then
        if after = [] then ([], .ok ()) else ([], .error "encrypted recovery has trailing data")
      else if accepted room plaintext = plaintext then
        (plaintext ++ (decryptLoop P key header noncePrefix (counter + 1) after
          (room.map (· - plaintext.length))).1,
          (decryptLoop P key header noncePrefix (counter + 1) after
            (room.map (· - plaintext.length))).2)
      else (accepted room plaintext, .error "write failed") := by
  conv_lhs => rw [decryptLoop]
  split
  · rename_i hread
    rw [h] at hread
    cases hread
  · rename_i hread
    rw [h] at hread
    cases hread
    rfl

theorem decryptLoop_error {cause : String}
    (h : readRecord P key header noncePrefix counter rest = .error cause) :
    decryptLoop P key header noncePrefix counter rest room = ([], .error cause) := by
  rw [decryptLoop]
  split
  · rename_i hread
    rw [h] at hread
    cases hread
    rfl
  · rename_i hread
    rw [h] at hread
    cases hread

/-- What opens is a record that `encryptStream` sealed for one of the streams, with the key, the
nonce and the associated data it was sealed with; and no salt was drawn twice. -/
structure Ideal (P : Primitives) (masterKey : Bytes) (streams : Set Sent) : Prop where
  authentic : ∀ key nonce ciphertext aad plaintext,
    P.openWith key nonce ciphertext aad = some plaintext →
    ∃ t ∈ streams, key = t.key P masterKey ∧ ∃ r ∈ encryptRecords 0 t.plain,
      nonce = recordNonce t.noncePrefix r.2 ∧ aad = recordAAD t.header r.2 r.1.1.length r.1.2 ∧
      ciphertext = P.sealWith key nonce r.1.1 aad ∧ plaintext = r.1.1
  salts : ∀ t ∈ streams, ∀ u ∈ streams, t.salt = u.salt → t = u

theorem Sent.header_inj {u : Sent} (h : t.header = u.header) :
    t.salt = u.salt ∧ t.noncePrefix = u.noncePrefix := by
  have hrest := (cons.inj (append_cancel_left h)).2
  obtain ⟨hsalt, hrest⟩ := append_inj hrest (t.salt_length.trans u.salt_length.symm)
  exact ⟨hsalt, (append_inj hrest (t.prefix_length.trans u.prefix_length.symm)).1⟩

theorem recordAAD_inj (hlen : header.length = header'.length)
    (h : recordAAD header c l final = recordAAD header' c' l' final') :
    header = header' ∧ bigEndian 8 c = bigEndian 8 c' ∧ final = final' := by
  obtain ⟨hheader, hrest⟩ := append_inj h hlen
  obtain ⟨hcounter, hrest⟩ := append_inj hrest (by rw [length_bigEndian, length_bigEndian])
  obtain ⟨-, hfinal⟩ := append_inj hrest (by rw [length_bigEndian, length_bigEndian])
  refine ⟨hheader, hcounter, ?_⟩
  cases final <;> cases final' <;> first | rfl | (exact absurd hfinal (by decide))

section Authentic

/-- The counter of a record of a stream that is not too long is its position. -/
theorem position_of_counter (hlen : t.records.length ≤ 2 ^ 64) (hi : i < t.records.length)
    (hcounter : counter < t.records.length) (h : bigEndian 8 counter = bigEndian 8 i) :
    i = counter := by
  refine (bigEndian_inj ?_ ?_ h).symm
  · exact lt_of_lt_of_le hcounter hlen
  · exact lt_of_lt_of_le hi hlen

section

variable (hideal : Ideal P masterKey streams)

include hideal

theorem opened_record (hheader : header.length = headerLength)
    (h : P.openWith key (recordNonce noncePrefix counter) ciphertext
      (recordAAD header counter plainLen final) =
      some plaintext) :
    ∃ t ∈ streams, t.header = header ∧ ∃ i, t.records[i]? = some (plaintext, final) ∧
      bigEndian 8 counter = bigEndian 8 i ∧
      ciphertext = P.sealWith key (recordNonce noncePrefix counter) plaintext
        (recordAAD header counter plainLen final) ∧
      recordAAD header counter plainLen final =
        recordAAD header counter plaintext.length final := by
  obtain ⟨t, ht, -, ⟨⟨m, f⟩, i⟩, hr, -, haad, hcipher, rfl⟩ := hideal.authentic _ _ _ _ _ h
  obtain ⟨hh, hc, rfl⟩ := recordAAD_inj (hheader.trans t.length_header.symm) haad
  rw [t.records_eq, mk_mem_zipIdx_iff_getElem?] at hr
  refine ⟨t, ht, hh.symm, i, hr, hc, hcipher, ?_⟩
  rw [haad, recordAAD, recordAAD, hh, hc]

/-- From position `counter` on, what the loop accepts is what follows in the stream. The induction
is on the input left; a record that is not final is not the last. -/
theorem decryptLoop_spec (ht : t ∈ streams) (hlen : t.records.length ≤ 2 ^ 64) (rest : Bytes)
    (room : Option ℕ) (counter : ℕ) (hcounter : counter < t.records.length) :
    (decryptLoop P (t.key P masterKey) t.header t.noncePrefix counter rest room).1 <+:
      (t.records.drop counter).flatMap Prod.fst ∧
    ((decryptLoop P (t.key P masterKey) t.header t.noncePrefix counter rest room).2 = .ok () →
      rest = ((t.records.drop counter).zipIdx counter).flatMap (t.encoded P masterKey) ∧
      (decryptLoop P (t.key P masterKey) t.header t.noncePrefix counter rest room).1 =
        (t.records.drop counter).flatMap Prod.fst) := by
  induction hsize : rest.length using Nat.strong_induction_on generalizing rest room counter with
  | _ size ih =>
    cases hread : readRecord P (t.key P masterKey) t.header t.noncePrefix counter rest with
    | error =>
      rw [decryptLoop_error hread]
      exact ⟨ nil_prefix, fun h => by cases h⟩
    | ok record =>
      obtain ⟨final, plaintext, after⟩ := record
      rw [decryptLoop_ok hread]
      obtain ⟨ciphertext, hrest, hopen⟩ := readRecord_ok hread
      obtain ⟨u, hu, hheader, i, hrecord, hbytes, hcipher, haad⟩ :=
        opened_record hideal t.length_header hopen
      obtain rfl : u = t := hideal.salts u hu t ht (Sent.header_inj hheader).1
      have hi := (List.getElem?_eq_some_iff.mp hrecord).1
      obtain rfl := position_of_counter hlen hi hcounter hbytes
      have hsplit : u.records.drop i = (plaintext, final) :: u.records.drop (i + 1) := by
        rw [drop_eq_getElem_cons hi, (List.getElem?_eq_some_iff.mp hrecord).2]
      have hencoded : u.encoded P masterKey ((plaintext, final), i) = frame final ciphertext := by
        rw [hcipher, haad]
        rfl
      obtain ⟨hlast, hempty⟩ := Sent.final_iff_last hrecord
      rw [hsplit, zipIdx_cons, flatMap_cons, flatMap_cons, hencoded]
      by_cases hfinal : final = true
      · have htail := drop_eq_nil_of_le (hlast.mp hfinal).ge
        rw [if_pos hfinal, htail, hempty hfinal]
        by_cases hafter : after = []
        · rw [if_pos hafter]
          refine ⟨ nil_prefix, fun _ => ⟨?_, rfl⟩⟩
          rw [hrest, hafter, zipIdx_nil, flatMap_nil, append_nil]
        · rw [if_neg hafter]
          exact ⟨ nil_prefix, fun h => by cases h⟩
      · have hnext : i + 1 < u.records.length := by
          have hne := mt hlast.mpr hfinal
          omega
        rw [if_neg hfinal]
        by_cases hroom : accepted room plaintext = plaintext
        · have hrec := ih after.length (hsize ▸ readRecord_length _ _ _ _ hread) after
            (room.map (· - plaintext.length)) (i + 1) hnext rfl
          rw [if_pos hroom]
          refine ⟨(prefix_append_right_inj _).mpr hrec.1, fun hok => ?_⟩
          obtain ⟨hafter, hwritten⟩ := hrec.2 hok
          exact ⟨by rw [hrest, ← hafter], by rw [← hwritten]⟩
        · rw [if_neg hroom]
          refine ⟨List.IsPrefix.trans ?_ (prefix_append _ _), fun h => by cases h⟩
          cases room with
          | none => exact prefix_refl _
          | some => exact take_prefix _ _

theorem decryptLoop_foreign (hheader : header.length = headerLength)
    (hforeign : ∀ t ∈ streams, t.header ≠ header) (counter : ℕ) :
    ∃ cause, decryptLoop P key header noncePrefix counter rest room = ([], .error cause) := by
  cases hread : readRecord P key header noncePrefix counter rest with
  | error cause => exact ⟨cause, decryptLoop_error hread⟩
  | ok =>
    obtain ⟨ciphertext, -, hopen⟩ := readRecord_ok hread
    obtain ⟨t, ht, hsame, -⟩ := opened_record hideal hheader hopen
    exact absurd hsame (hforeign t ht)

end

theorem Sent.header_parts (t : Sent) :
    t.header.take 8 = encryptedMagic ∧ (t.header.drop 8).take 1 = [encryptedVersion] ∧
    (t.header.drop 9).take 16 = t.salt ∧ (t.header.drop 25).take 4 = t.noncePrefix ∧
    readBigEndian (t.header.drop 29) = encryptionChunkSize := by
  have hmagic : encryptedMagic.length = 8 := by decide +kernel
  have h8 : t.header.drop 8 = encryptedVersion ::
      (t.salt ++ (t.noncePrefix ++ bigEndian 4 encryptionChunkSize)) :=
    drop_left' hmagic
  have h9 : t.header.drop 9 = t.salt ++ (t.noncePrefix ++ bigEndian 4 encryptionChunkSize) := by
    rfl
  have h25 : t.header.drop 25 = t.noncePrefix ++ bigEndian 4 encryptionChunkSize := by
    rw [show 25 = 9 + 16 from rfl, ← drop_drop, h9, drop_left' t.salt_length]
  have h29 : t.header.drop 29 = bigEndian 4 encryptionChunkSize := by
    rw [show 29 = 25 + 4 from rfl, ← drop_drop, h25, drop_left' t.prefix_length]
  refine ⟨take_left' hmagic, by rw [h8]; rfl, by rw [h9, take_left' t.salt_length],
    by rw [h25, take_left' t.prefix_length], ?_⟩
  rw [h29]
  decide

theorem decryptStream_header :
    decryptStream P masterKey (t.header ++ rest) room =
      decryptLoop P (t.key P masterKey) t.header t.noncePrefix 0 rest room := by
  have htake : (t.header ++ rest).take headerLength = t.header := take_left' t.length_header
  have hdrop : (t.header ++ rest).drop headerLength = rest := drop_left' t.length_header
  obtain ⟨hmagic, hversion, hsalt, hprefix, hchunk⟩ := t.header_parts
  simp only [decryptStream, htake, hdrop, hsalt, hprefix]
  rw [if_neg (by rw [length_append, t.length_header]; omega),
    if_neg (by rintro (h | h); exacts [h hmagic, h hversion]),
    if_neg (by rw [hchunk]; exact fun h => h rfl)]
  rfl

theorem length_records_le (h : t.plain.length ≤ (2 ^ 64 - 1) * encryptionChunkSize) :
    t.records.length ≤ 2 ^ 64 := by
  have hcount := length_chunks_le (show 0 < encryptionChunkSize by decide) h
  rw [Sent.records, length_append, length_map, length_singleton]
  omega

end Authentic

structure Opens (P : Primitives) (masterKey : Bytes) (t : Sent) : Prop where
  record : ∀ r ∈ encryptRecords 0 t.plain,
    P.openWith (t.key P masterKey) (recordNonce t.noncePrefix r.2)
    (sealRecord P (t.key P masterKey) t.header t.noncePrefix r.2 r.1.1 r.1.2)
    (recordAAD t.header r.2 r.1.1.length r.1.2) = some r.1.1
  tag : ∀ key nonce plaintext aad, (P.sealWith key nonce plaintext aad).length = plaintext.length +
    overhead

theorem readRecord_encoded (h : Opens P masterKey t) (hr : r ∈ t.records.zipIdx) (after : Bytes) :
    readRecord P (t.key P masterKey) t.header t.noncePrefix r.2 (t.encoded P masterKey r ++ after) =
      .ok (r.1.2, r.1.1, after) := by
  obtain ⟨⟨m, final⟩, i⟩ := r
  have htag : (sealRecord P (t.key P masterKey) t.header t.noncePrefix i m final).length =
      m.length + overhead :=
    h.tag _ _ _ _
  have hrec := mk_mem_zipIdx_iff_getElem?.mp hr
  have hsize : m.length ≤ encryptionChunkSize := by
    rcases mem_append.mp (mem_of_getElem? hrec) with hchunk | hlast
    · obtain ⟨chunk, hpiece, heq⟩ := mem_map.mp hchunk
      cases heq
      exact (mem_chunks (by decide) hpiece).2
    · cases mem_singleton.mp hlast
      exact zero_le _
  refine readRecord_frame ?_ ?_ ?_ ?_
  · dsimp only
    omega
  · rw [htag, maxEncryptedRecord, overhead]
    omega
  · intro hfinal
    rw [htag, (Sent.final_iff_last hrec).2 hfinal]
    rfl
  · have hopen := h.record ((m, final), i) (t.records_eq ▸ hr)
    rw [htag]
    exact hopen

theorem decryptLoop_records (h : Opens P masterKey t) (cs : List Bytes) (counter : ℕ)
    (hmem : ∀ r ∈ (cs.map (·, false) ++ [([], true)]).zipIdx counter, r ∈ t.records.zipIdx) :
    decryptLoop P (t.key P masterKey) t.header t.noncePrefix counter
      (((cs.map (·, false) ++ [([], true)]).zipIdx counter).flatMap (t.encoded P masterKey)) none =
      (cs.flatten, .ok ()) := by
  induction cs generalizing counter with
  | nil =>
    have hread := readRecord_encoded h (hmem (([], true), counter) mem_cons_self) []
    exact decryptLoop_ok hread
  | cons c cs ih =>
    have hread := readRecord_encoded h (hmem ((c, false), counter) mem_cons_self)
      (((cs.map (·, false) ++ [([], true)]).zipIdx (counter + 1)).flatMap (t.encoded P masterKey))
    have hrest := ih (counter + 1) fun r hr => hmem r (mem_cons_of_mem _ hr)
    refine (decryptLoop_ok hread).trans ?_
    rw [if_neg Bool.false_ne_true, if_pos (show accepted none c = c from rfl), Option.map_none,
      hrest, flatten_cons]

/-- What was encrypted is decrypted, for plaintexts of every length. -/
theorem decrypt_encrypt (h : Opens P masterKey t) :
    decryptStream P masterKey (t.stream P masterKey) none = (t.plain, .ok ()) := by
  rw [t.stream_eq, decryptStream_header]
  refine (decryptLoop_records h _ 0 fun r hr => hr).trans ?_
  rw [flatten_chunks (by decide)]

/-- For streams of fewer than `2 ^ 64` chunks: only a stream that was produced is accepted, whole
and with its own plaintext, and in every case what has been written begins the plaintext of one. -/
theorem decrypt_authentic (P : Primitives) (masterKey : Bytes) (streams : Set Sent)
    (hideal : Ideal P masterKey streams)
    (hshort : ∀ t ∈ streams, t.plain.length ≤ (2 ^ 64 - 1) * encryptionChunkSize) (input : Bytes)
    (room : Option ℕ) :
    ((decryptStream P masterKey input room).2 = .ok () →
      ∃ t ∈ streams, input = t.stream P masterKey ∧
        (decryptStream P masterKey input room).1 = t.plain) ∧
    ((∃ t ∈ streams, (decryptStream P masterKey input room).1 <+: t.plain) ∨
      (streams = ∅ ∧ (decryptStream P masterKey input room).1 = [])) := by
  by_cases hown : ∃ t ∈ streams, t.header <+: input
  · obtain ⟨t, ht, rest, rfl⟩ := hown
    have hcount := length_records_le (hshort t ht)
    have hpos : 0 < t.records.length := by
      rw [Sent.records, length_append, length_singleton]
      omega
    have hloop := decryptLoop_spec hideal ht hcount rest room 0 hpos
    rw [drop_zero, t.plain_eq] at hloop
    rw [decryptStream_header]
    refine ⟨fun hok => ⟨t, ht, ?_, (hloop.2 hok).2⟩, .inl ⟨t, ht, hloop.1⟩⟩
    rw [(hloop.2 hok).1, t.stream_eq]
  · -- no stream begins like the input, so nothing is written and nothing accepted
    have hnothing : ∃ cause, decryptStream P masterKey input room = ([], .error cause) := by
      unfold decryptStream
      dsimp only
      split_ifs with hlength
      · exact ⟨_, rfl⟩
      · exact ⟨_, rfl⟩
      · exact ⟨_, rfl⟩
      · refine decryptLoop_foreign hideal ?_ ?_ 0
        · rw [length_take]
          omega
        · intro t ht heq
          exact hown ⟨t, ht, heq ▸ take_prefix _ _⟩
    obtain ⟨cause, hresult⟩ := hnothing
    rw [hresult]
    refine ⟨fun h => (by cases h), ?_⟩
    rcases Set.eq_empty_or_nonempty streams with hnone | ⟨t, ht⟩
    · exact .inr ⟨hnone, rfl⟩
    · exact .inl ⟨t, ht, nil_prefix⟩

/-- Primitives that seal by appending a tag of zeros and open exactly what was sealed for `t`. -/
def recorded (t : Sent) : Primitives where
  derive _ salt := salt
  sealWith _ _ plaintext _ := plaintext ++ replicate overhead 0
  openWith key nonce ciphertext aad :=
    if key = t.salt ∧ ∃ r ∈ encryptRecords 0 t.plain, nonce = recordNonce t.noncePrefix r.2 ∧
      aad = recordAAD t.header r.2 r.1.1.length r.1.2 ∧ ciphertext = r.1.1 ++ replicate overhead 0
    then some (ciphertext.take (ciphertext.length - overhead)) else none

theorem recorded_open : (recorded t).openWith key nonce ciphertext aad = some plaintext ↔
      key = t.salt ∧ ∃ r ∈ encryptRecords 0 t.plain, nonce = recordNonce t.noncePrefix r.2 ∧
        aad = recordAAD t.header r.2 r.1.1.length r.1.2 ∧
          ciphertext = r.1.1 ++ replicate overhead 0 ∧
        plaintext = r.1.1 := by
  have htag : ∀ m : Bytes, (m ++ replicate overhead 0).take
      ((m ++ replicate overhead (0 : UInt8)).length - overhead) = m := by
    intro m
    rw [length_append, length_replicate, Nat.add_sub_cancel, take_left]
  simp only [recorded]
  constructor
  · intro h
    split_ifs at h with hsealed
    obtain ⟨hkey, r, hr, hnonce, haad, hcipher⟩ := hsealed
    refine ⟨hkey, r, hr, hnonce, haad, hcipher, ?_⟩
    rw [← Option.some.inj h, hcipher, htag]
  · rintro ⟨hkey, r, hr, hnonce, haad, hcipher, rfl⟩
    rw [if_pos ⟨hkey, r, hr, hnonce, haad, hcipher⟩, hcipher, htag]

theorem recorded_ideal : Ideal (recorded t) masterKey {t} := by
  constructor
  · intro key nonce ciphertext aad plaintext h
    obtain ⟨hkey, r, hr, hnonce, haad, hcipher, hplain⟩ := recorded_open.mp h
    exact ⟨t, rfl, hkey, r, hr, hnonce, haad, hcipher, hplain⟩
  · rintro u rfl v rfl -
    rfl

theorem recorded_opens : Opens (recorded t) masterKey t := by
  constructor
  · intro r hr
    exact recorded_open.mpr ⟨rfl, r, hr, rfl, rfl, rfl, rfl⟩
  · intro key nonce plaintext aad
    exact (length_append).trans (by rw [length_replicate])

def noteSent : Sent := ⟨replicate 16 7, [1, 2, 3, 4], [104, 105], rfl, rfl⟩

theorem note_accepted :
    (decryptStream (recorded noteSent) [] (noteSent.stream (recorded noteSent) []) none).2 =
      .ok () ∧
    ∃ t ∈ ({noteSent} : Set Sent), noteSent.stream (recorded noteSent) [] =
      t.stream (recorded noteSent) [] ∧
      (decryptStream (recorded noteSent) [] (noteSent.stream (recorded noteSent) []) none).1 =
        t.plain := by
  have hok : (decryptStream (recorded noteSent) [] (noteSent.stream (recorded noteSent) [])
      none).2 = .ok () := by
    rw [decrypt_encrypt recorded_opens]
  have hshort : ∀ t ∈ ({noteSent} : Set Sent),
      t.plain.length ≤ (2 ^ 64 - 1) * encryptionChunkSize := by
    rintro t rfl
    decide
  exact ⟨hok, (decrypt_authentic (recorded noteSent) [] {noteSent} recorded_ideal hshort
    (noteSent.stream (recorded noteSent) []) none).1 hok⟩

/-- A stream of `2 ^ 64` chunks: the counter of its final record has come round to zero, so the
header and that record alone are accepted, as an empty plaintext. -/
theorem wrapped_stream_truncated : ∃ t : Sent, Ideal (recorded t) [] {t} ∧ t.plain ≠ [] ∧
    ∃ input : Bytes,
      decryptStream (recorded t) [] input none = ([], .ok ()) ∧ ∀ u ∈ ({t} : Set Sent),
        input ≠ u.stream (recorded t) [] := by
  obtain ⟨plain, hplain⟩ : ∃ plain : Bytes, plain.length = 2 ^ 64 * encryptionChunkSize :=
    ⟨replicate _ 0, length_replicate⟩
  let t : Sent := ⟨replicate 16 7, [1, 2, 3, 4], plain, rfl, rfl⟩
  have hcount := length_chunks_eq (by decide) hplain
  have hnonempty : plain ≠ [] := by
    rintro rfl
    rw [chunks_nil] at hcount
    exact absurd hcount (by decide)
  have hfinal : (([], true), 2 ^ 64) ∈ encryptRecords 0 plain := by
    rw [encryptRecords_eq, mk_mem_zipIdx_iff_getElem?,
      getElem?_append_right (by rw [length_map, hcount]), length_map, hcount]
    rfl
  have hwrap : bigEndian 8 0 = bigEndian 8 (2 ^ 64) := by decide
  refine ⟨t, recorded_ideal, hnonempty, t.header ++ frame true (replicate overhead 0), ?_, ?_⟩
  · have hopen : (recorded t).openWith (t.key (recorded t) []) (recordNonce t.noncePrefix 0)
        (replicate overhead 0)
        (recordAAD t.header 0 ((replicate overhead (0 : UInt8)).length - overhead) true) =
          some [] := by
      refine recorded_open.mpr ⟨rfl, (([], true), 2 ^ 64), hfinal, ?_, ?_, rfl, rfl⟩
      · rw [recordNonce, recordNonce, hwrap]
      · rfl
    have hread : readRecord (recorded t) (t.key (recorded t) []) t.header t.noncePrefix 0
        (frame true (replicate overhead 0) ++ []) = .ok (true, [], []) :=
      readRecord_frame (by rw [length_replicate]) (by decide) (fun _ => rfl) hopen
    rw [append_nil] at hread
    rw [decryptStream_header, decryptLoop_ok hread]
    rfl
  · rintro u rfl heq
    rw [Sent.stream_eq] at heq
    have hrecords : t.records = (plain.take encryptionChunkSize, false) :: t.records.tail := by
      rw [Sent.records, chunks_cons (by decide) hnonempty]
      rfl
    have hfirst := append_cancel_left heq
    rw [hrecords] at hfirst
    have hflag : finalByte true = finalByte false := (cons.inj hfirst).1
    exact absurd hflag (by decide)

end RecoveryEncryption
