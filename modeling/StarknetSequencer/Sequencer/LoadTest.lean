import StarknetSequencer.Sequencer.Reference

namespace Sequencer

open Wire

-- `uuid.New().String()`: groups of 8, 4, 4, 4 and 12 digits
def isUuid (s : String) : Bool :=
  s.toList.length == 36 && s.toList.zipIdx.all fun (c, i) =>
    if i = 8 ∨ i = 13 ∨ i = 18 ∨ i = 23 then c == '-' else (digitValue c).isSome

def generateTx (tx : Bytes) (uuid : String) : Except Panic Bytes :=
  if tx.length < 44 then .error .slice else .ok (tx.take 8 ++ utf8 uuid ++ tx.drop 44)

def firstString : TransactionType → String
  | .declare program => program
  | .deployAccount classHash _ _ => classHash
  | .invoke address _ _ => address

-- the upper half of the length of `s`, then `s`: bytes 8 to 44 of a transaction that starts with it
def spelled (s : String) : Bytes :=
  toBytes 4 ((utf8 s).length / 2 ^ 32) ++ (utf8 s).take 32

structure Printed (bs : Bytes) : Prop where
  length : bs.length = 36
  nonzero : ∀ b ∈ bs, b ≠ 0

theorem printed_uuid {s : String} (h : isUuid s) : Printed (utf8 s) := by
  simp only [isUuid, Bool.and_eq_true, beq_iff_eq, List.all_eq_true] at h
  obtain ⟨hlen, hall⟩ := h
  have hchar : ∀ c ∈ s.toList, c = '-' ∨ ∃ d, digitValue c = some d := by
    intro c hc
    obtain ⟨i, hi⟩ := List.mem_iff_getElem?.mp hc
    have hat := hall (c, i) (List.mem_zipIdx_iff_getElem?.mpr hi)
    simp only at hat
    split at hat
    · exact .inl (by simpa using hat)
    · exact .inr (Option.isSome_iff_exists.mp hat)
  have hsize : ∀ c ∈ s.toList, c.utf8Size = 1 := by
    intro c hc
    rcases hchar c hc with rfl | ⟨d, hd⟩
    · rfl
    · exact (digitValue_some hd).2.1
  rw [utf8_ascii hsize]
  refine ⟨by rw [List.length_map, hlen], ?_⟩
  intro b hb hzero
  obtain ⟨c, hc, rfl⟩ := List.mem_map.mp hb
  have hle : c.toNat ≤ 127 := Char.utf8Size_eq_one_iff.mp (hsize c hc)
  have hnul : c = Char.ofNat 0 := by
    have hval : c.val.toNat % 256 = 0 := congrArg UInt8.toNat hzero
    have hnat : c.toNat = 0 := by
      rw [← Nat.mod_eq_of_lt (by omega : c.toNat < 256)]
      exact hval
    rw [← hnat, Char.ofNat_toNat]
  rcases hchar c hc with rfl | ⟨d, hd⟩
  · exact absurd hnul (by decide)
  · have hnone : digitValue (Char.ofNat 0) = none := by decide
    rw [hnul, hnone] at hd
    cases hd

theorem toBytes_eight (n : Nat) : toBytes 8 n = toBytes 4 n ++ toBytes 4 (n / 2 ^ 32) := by
  have hdiv : n / 2 ^ 32 = n / 256 / 256 / 256 / 256 := by omega
  rw [hdiv]
  rfl

theorem encode_string (s : String) :
    Codec.string.encode s = toBytes 8 (utf8 s).length ++ utf8 s := by
  have hbytes : (utf8 s).flatMap Codec.byte.encode = utf8 s := List.flatMap_singleton' _
  exact congrArg (toBytes 8 (utf8 s).length ++ ·) hbytes

theorem encode_type (t : TransactionType) : ∃ tag rest, tag.length = 4 ∧
    transactionTypeCodec.encode t = tag ++ (Codec.string.encode (firstString t) ++ rest) := by
  cases t with
  | declare program => exact ⟨_, [], toBytes_length 4 0, by rw [List.append_nil]; rfl⟩
  | deployAccount classHash salt inputs => exact ⟨_, _, toBytes_length 4 1, rfl⟩
  | invoke address function inputs => exact ⟨_, _, toBytes_length 4 2, rfl⟩

-- the first string starts at byte 4 and the id is what the encoding ends with
theorem encode_layout (tx : Transaction) :
    ∃ front rest, front.length = 8 ∧ 16 ≤ rest.length ∧
      ∀ uuid, (utf8 uuid).length = 36 → transactionCodec.encode { tx with id := uuid } =
        front ++ (toBytes 4 ((utf8 (firstString tx.transactionType)).length / 2 ^ 32) ++
          (utf8 (firstString tx.transactionType) ++ (rest ++ utf8 uuid))) := by
  obtain ⟨tag, more, htag, henc⟩ := encode_type tx.transactionType
  refine ⟨tag ++ toBytes 4 (utf8 (firstString tx.transactionType)).length,
    more ++ (Codec.string.encode tx.transactionHash ++ toBytes 8 36), ?_, ?_, ?_⟩
  · rw [List.length_append, htag, toBytes_length]
  · rw [encode_string]
    simp only [List.length_append, toBytes_length]
    omega
  · intro uuid huuid
    have hsplit : transactionCodec.encode { tx with id := uuid } =
        transactionTypeCodec.encode tx.transactionType ++
          (Codec.string.encode tx.transactionHash ++ Codec.string.encode uuid) := rfl
    rw [hsplit, henc, encode_string uuid, huuid, encode_string (firstString _), toBytes_eight]
    simp only [List.append_assoc]

section Patch

variable {front high first rest id uuid : Bytes}

theorem patched_window (hfront : front.length = 8) (hhigh : high.length = 4) :
    (front ++ (high ++ (first ++ (rest ++ id)))).take 8 ++ uuid ++
      (front ++ (high ++ (first ++ (rest ++ id)))).drop 44 =
    front ++ (uuid ++ (first ++ (rest ++ id)).drop 32) := by
  have hdrop : (front ++ (high ++ (first ++ (rest ++ id)))).drop 44 =
      (first ++ (rest ++ id)).drop 32 := by
    rw [List.drop_append, List.drop_eq_nil_of_le (by omega), hfront, List.nil_append,
      List.drop_append, List.drop_eq_nil_of_le (by omega), hhigh, List.nil_append]
  rw [List.take_left' hfront, hdrop, List.append_assoc]

theorem agrees_of_long (hhigh : high.length = 4) (hfirst : 32 ≤ first.length)
    (huuid : uuid.length = 36) (hid : id.length = 36) :
    uuid ++ (first ++ (rest ++ id)).drop 32 = high ++ (first ++ (rest ++ uuid)) ↔
      uuid = id ∧ high ++ first.take 32 = uuid := by
  have hsplit : high ++ (first ++ (rest ++ uuid)) =
      (high ++ first.take 32) ++ (first.drop 32 ++ (rest ++ uuid)) := by
    rw [List.append_assoc, ← List.append_assoc (first.take 32), List.take_append_drop]
  have hlen : (high ++ first.take 32).length = uuid.length := by
    rw [List.length_append, List.length_take, hhigh, huuid, Nat.min_eq_left hfirst]
  rw [List.drop_append_of_le_length hfirst, hsplit]
  constructor
  · intro h
    obtain ⟨hwindow, htail⟩ := List.append_inj h hlen.symm
    exact ⟨(List.append_cancel_left (List.append_cancel_left htail)).symm, hwindow.symm⟩
  · rintro ⟨rfl, hwindow⟩
    rw [hwindow]

-- the high half of a length below 2 ^ 32 is zero, which no character of a uuid is
theorem not_zero_of_printed {rest' : Bytes} (h : Printed uuid) (n : Nat) (hn : n < 2 ^ 32) :
    uuid ++ rest ≠ toBytes 4 (n / 2 ^ 32) ++ rest' := by
  rw [Nat.div_eq_of_lt hn]
  intro heq
  cases uuid with
  | nil => cases h.length
  | cons b bs => exact h.nonzero b List.mem_cons_self (List.cons.inj heq).1

end Patch

section GenerateTx

variable {tx : Transaction} {uuid : String}

theorem generateTx_layout (hid : isUuid tx.id) (hu : isUuid uuid) :
    ∃ rest, (generateTx (transactionCodec.encode tx) uuid =
        .ok (transactionCodec.encode { tx with id := uuid }) ↔
      utf8 uuid ++ (utf8 (firstString tx.transactionType) ++ (rest ++ utf8 tx.id)).drop 32 =
        toBytes 4 ((utf8 (firstString tx.transactionType)).length / 2 ^ 32) ++
          (utf8 (firstString tx.transactionType) ++ (rest ++ utf8 uuid))) := by
  obtain ⟨front, rest, hfront, hrest, henc⟩ := encode_layout tx
  have hold : transactionCodec.encode tx = _ := henc tx.id (printed_uuid hid).length
  have hnew := henc uuid (printed_uuid hu).length
  have hlong : ¬ (transactionCodec.encode tx).length < 44 := by
    rw [hold]
    simp only [List.length_append, toBytes_length, hfront, (printed_uuid hid).length]
    omega
  refine ⟨rest, ?_⟩
  rw [generateTx, if_neg hlong, hold, hnew, patched_window hfront (toBytes_length 4 _),
    Except.ok.injEq, List.append_cancel_left_eq]

-- bytes 8 to 12 are the upper half of a length, so the patch is never at the id
theorem generateTx_ne_of_short (hid : isUuid tx.id) (hu : isUuid uuid)
    (hshort : (utf8 (firstString tx.transactionType)).length < 2 ^ 32) :
    generateTx (transactionCodec.encode tx) uuid ≠
      .ok (transactionCodec.encode { tx with id := uuid }) := by
  intro h
  obtain ⟨rest, hiff⟩ := generateTx_layout hid hu
  exact not_zero_of_printed (printed_uuid hu) _ hshort (hiff.mp h)

theorem patch_agrees_iff (hid : isUuid tx.id) (hu : isUuid uuid) :
    generateTx (transactionCodec.encode tx) uuid =
        .ok (transactionCodec.encode { tx with id := uuid }) ↔
      uuid = tx.id ∧ spelled (firstString tx.transactionType) = utf8 uuid := by
  by_cases hshort : (utf8 (firstString tx.transactionType)).length < 2 ^ 32
  · refine iff_of_false (generateTx_ne_of_short hid hu hshort) ?_
    rintro ⟨-, hspelled⟩
    have hzero : utf8 uuid ++ [] = _ := (List.append_nil _).trans hspelled.symm
    exact not_zero_of_printed (printed_uuid hu) _ hshort hzero
  · obtain ⟨rest, hiff⟩ := generateTx_layout hid hu
    have hfirst : 32 ≤ (utf8 (firstString tx.transactionType)).length := by omega
    rw [hiff, agrees_of_long (toBytes_length 4 _) hfirst (printed_uuid hu).length
      (printed_uuid hid).length, spelled]
    exact and_congr_left fun _ => ⟨utf8_inj, congrArg utf8⟩

-- byte 11 is the top byte of the length of the first string, which the whole input contains
theorem byte_eleven_of_deserialize {bs : Bytes} (hlen : bs.length < 2 ^ 56)
    (h : transactionCodec.deserialize bs = some tx) : bs[11]? = some 0 := by
  obtain ⟨⟨tx', rest⟩, hdecode, rfl⟩ := Option.map_eq_some_iff.mp h
  obtain ⟨-, hbs⟩ := transactionCodec.sound hdecode
  obtain ⟨tag, more, htag, henc⟩ := encode_type tx'.transactionType
  have hsplit : transactionCodec.encode tx' = transactionTypeCodec.encode tx'.transactionType ++
      (Codec.string.encode tx'.transactionHash ++ Codec.string.encode tx'.id) := rfl
  rw [hsplit, henc, encode_string (firstString _)] at hbs
  simp only [List.append_assoc] at hbs
  have hfirst : (utf8 (firstString tx'.transactionType)).length < 2 ^ 56 := by
    rw [hbs] at hlen
    simp only [List.length_append] at hlen
    omega
  have htop : (toBytes 8 (utf8 (firstString tx'.transactionType)).length)[7]? = some 0 := by
    have hzero : (utf8 (firstString tx'.transactionType)).length / 2 ^ 32 / 256 / 256 / 256 = 0 := by
      omega
    rw [toBytes_eight, List.getElem?_append_right (by rw [toBytes_length]; omega)]
    simp only [toBytes, hzero]
    rfl
  rw [hbs, List.getElem?_append_right (by omega), htag,
    List.getElem?_append_left (by rw [toBytes_length]; omega)]
  exact htop

-- what the patch leaves in that byte makes the length greater than any transaction
theorem generateTx_undecodable (hu : isUuid uuid) {bs patched : Bytes}
    (hlen : bs.length < 2 ^ 56) (h : generateTx bs uuid = .ok patched) :
    transactionCodec.deserialize patched = none := by
  obtain ⟨hu36, hnonzero⟩ := printed_uuid hu
  rw [generateTx] at h
  split at h
  · cases h
  · rename_i hlong
    cases h
    have hsame : (bs.take 8 ++ utf8 uuid ++ bs.drop 44).length = bs.length := by
      simp only [List.length_append, List.length_take, List.length_drop, hu36]
      omega
    have hfront : (bs.take 8).length = 8 := by
      rw [List.length_take]
      omega
    by_contra hsome
    obtain ⟨tx, htx⟩ := Option.ne_none_iff_exists'.mp hsome
    have hbyte := byte_eleven_of_deserialize (by rw [hsame]; exact hlen) htx
    rw [List.append_assoc, List.getElem?_append_right (by omega), hfront,
      List.getElem?_append_left (by omega)] at hbyte
    exact hnonzero 0 (List.mem_of_getElem? hbyte) rfl

end GenerateTx

namespace Reference

def freshUuid : String := "f47ac10b-58cc-4372-a567-0e02b2c3d479"

end Reference

theorem patch_agrees_iff_published :
    generateTx (Reference.request Reference.published) Reference.freshUuid =
        .ok (Reference.request { Reference.published with id := Reference.freshUuid }) ↔
      Reference.freshUuid = Reference.published.id ∧
        spelled (firstString Reference.published.transactionType) = utf8 Reference.freshUuid :=
  patch_agrees_iff (by decide) (by decide)

-- bytes 8 to 44 of the Declare are its program and its hash, and the uuid overwrites them
theorem patched_declare_differs :
    isUuid Reference.published.id ∧ isUuid Reference.freshUuid ∧
    generateTx (Reference.request Reference.published) Reference.freshUuid ≠
      .ok (Reference.request { Reference.published with id := Reference.freshUuid }) :=
  ⟨by decide, by decide, generateTx_ne_of_short (by decide) (by decide) (by decide)⟩

end Sequencer
