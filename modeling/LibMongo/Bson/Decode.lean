import LibMongo.Base.Parser
import LibMongo.Bson.Grammar

/-!
# Documents from bytes

A reference decoder for documents, written from the grammar of BSON.  A server reads the
documents it is sent with it.  An object that encodes a document is decoded to that
document (`Bson.Encodes.decode`), so it encodes no other.
-/

namespace LibMongo

open Bytes Parser

/-! ## The decoder -/

/-- One byte. -/
def parseByte : Parser UInt8
  | [] => none
  | b :: bs => some (b, bs)

/-- A text behind its length, which counts the terminator. -/
def parseText : Parser Bytes := do
  let n ← word32
  let s ← take (n.toNat - 1)
  let _ ← take 1
  return s

/-- Twelve bytes. -/
def parseOid : Parser Oid := fun bs =>
  if h : 12 ≤ bs.length then some (⟨bs.take 12, Oid.length_take h⟩, bs.drop 12)
  else none

mutual

/-- A value of this type. -/
def parseValue : Nat → BsonType → Parser Value
  | 0, _ => failure
  | fuel + 1, type =>
      match type with
      | .double => Value.double <$> word64
      | .string => Value.string <$> parseText
      | .document => do
          let _ ← word32
          Value.document <$> parseElems fuel
      | .array => do
          let _ ← word32
          Value.array <$> parseElems fuel
      | .binary => do
          let n ← word32
          let subtype ← parseByte
          Value.binary subtype <$> take n.toNat
      | .undefined => return .undefined
      | .oid => Value.oid <$> parseOid
      | .boolean => Value.boolean <$> parseByte
      | .utcDatetime => Value.utcDatetime <$> word64
      | .null => return .null
      | .regexp => do
          let r ← cstring
          Value.regexp r <$> cstring
      | .dbpointer => do
          let ns ← parseText
          Value.dbpointer ns <$> parseOid
      | .jsCode => Value.jsCode <$> parseText
      | .symbol => Value.symbol <$> parseText
      | .jsCodeWScope => do
          let _ ← word32
          let s ← parseText
          let _ ← word32
          Value.jsCodeWScope s <$> parseElems fuel
      | .int32 => Value.int32 <$> word32
      | .timestamp => Value.timestamp <$> word64
      | .int64 => Value.int64 <$> word64
      | .min => return .min
      | .max => return .max
      | _ => failure

/-- Elements up to the terminator. -/
def parseElems : Nat → Parser Doc
  | 0 => failure
  | fuel + 1 => do
      let b ← parseByte
      if b = 0 then return .nil
      else
        let key ← cstring
        let value ← parseValue fuel (.ofByte b)
        Doc.cons key value <$> parseElems fuel

end

/-- The document an object stands for.  Every element takes a byte at least, so the length
of the object is enough fuel. -/
def Bson.decode (b : Bson) : Option Doc :=
  if b.finished then
    match (word32 >>= fun _ => parseElems b.data.length).run b.data with
    | some (d, []) => some d
    | _ => none
  else none

/-! ## What it reads -/

theorem reads_byte (b : UInt8) : Reads parseByte [b] b := fun _ => rfl

theorem reads_size {n : Nat} (h : n < 2147483648) :
    ∃ w : BitVec 32, Reads word32 (leBytes 4 n) w ∧ w.toNat = n := by
  have hnat : (BitVec.ofNat 32 n).toNat = n := by
    rw [BitVec.toNat_ofNat, Nat.mod_eq_of_lt (by omega)]
  refine ⟨BitVec.ofNat 32 n, ?_, hnat⟩
  have hread := reads_word32 (BitVec.ofNat 32 n)
  rwa [hnat] at hread

theorem reads_oid (o : Oid) : Reads parseOid o.bytes o := by
  intro rest
  have hle : 12 ≤ (o.bytes ++ rest).length := by simp [o.length_eq]
  show (if h : 12 ≤ (o.bytes ++ rest).length then _ else _) = _
  rw [dif_pos hle]
  cases o with
  | mk bytes length_eq =>
      simp only [Option.some.injEq, Prod.mk.injEq, Oid.mk.injEq]
      exact ⟨List.take_left' length_eq, List.drop_left' length_eq⟩

theorem reads_text {s : Bytes} (h : s.length + 1 < 2147483648) :
    Reads parseText (textImage s) s := by
  obtain ⟨w, hw, hn⟩ := reads_size h
  refine hw.bind ?_
  have hs : Reads (take (w.toNat - 1)) s s := by
    rw [hn]
    exact reads_take s
  refine hs.bind ?_
  have h0 := (reads_take [(0 : UInt8)]).bind (f := fun _ => (pure s : Parser Bytes)) (Reads.pure s)
  rwa [List.append_nil] at h0

theorem Value.toByte_ne_zero (v : Value) : v.type.toByte ≠ 0 := by
  cases v <;> simp [Value.type, BsonType.toByte]

mutual

/-- A value is read from its bytes. -/
theorem reads_value : ∀ (v : Value) {fuel : Nat}, v.encode.length < 2147483648 →
    v.encode.length < fuel → Reads (parseValue fuel v.type) v.encode v
  | v, 0, _, hfuel => absurd hfuel (Nat.not_lt_zero _)
  | .double x, fuel + 1, _, _ => (reads_word64 x).map
  | .string s, fuel + 1, h, _ => by
      simp only [Value.encode, textImage_length] at h
      exact (reads_text (by omega)).map
  | .document d, fuel + 1, h, hfuel => by
      simp only [Value.encode, frame_length] at h hfuel
      obtain ⟨w, hw, -⟩ := reads_size h
      exact hw.bind (reads_elems d (by omega) (by omega)).map
  | .array d, fuel + 1, h, hfuel => by
      simp only [Value.encode, frame_length] at h hfuel
      obtain ⟨w, hw, -⟩ := reads_size h
      exact hw.bind (reads_elems d (by omega) (by omega)).map
  | .binary subtype data, fuel + 1, h, _ => by
      simp only [Value.encode, List.length_append, leBytes_length, List.length_cons] at h
      obtain ⟨w, hw, hn⟩ := reads_size (n := data.length) (by omega)
      refine hw.bind ((reads_byte subtype).bind ?_)
      rw [hn]
      exact (reads_take data).map
  | .undefined, fuel + 1, _, _ => Reads.pure _
  | .oid o, fuel + 1, _, _ => (reads_oid o).map
  | .boolean b, fuel + 1, _, _ => (reads_byte b).map
  | .utcDatetime t, fuel + 1, _, _ => (reads_word64 t).map
  | .null, fuel + 1, _, _ => Reads.pure _
  | .regexp r o, fuel + 1, _, _ => (reads_cstring r).bind (reads_cstring o).map
  | .dbpointer ns o, fuel + 1, h, _ => by
      simp only [Value.encode, List.length_append, textImage_length] at h
      exact (reads_text (by omega)).bind (reads_oid o).map
  | .jsCode s, fuel + 1, h, _ => by
      simp only [Value.encode, textImage_length] at h
      exact (reads_text (by omega)).map
  | .symbol s, fuel + 1, h, _ => by
      simp only [Value.encode, textImage_length] at h
      exact (reads_text (by omega)).map
  | .jsCodeWScope s scope, fuel + 1, h, hfuel => by
      simp only [Value.encode, List.length_append, leBytes_length, textImage_length,
        frame_length] at h hfuel
      obtain ⟨w, hw, -⟩ := reads_size (n := 4 + (textImage s ++ frame scope.elems).length)
        (by simp only [List.length_append, textImage_length, frame_length]; omega)
      obtain ⟨w', hw', -⟩ := reads_size (n := scope.elems.length + 5) (by omega)
      exact hw.bind ((reads_text (by omega)).bind
        (hw'.bind (reads_elems scope (by omega) (by omega)).map))
  | .int32 i, fuel + 1, _, _ => (reads_word32 i).map
  | .timestamp t, fuel + 1, _, _ => (reads_word64 t).map
  | .int64 i, fuel + 1, _, _ => (reads_word64 i).map
  | .min, fuel + 1, _, _ => Reads.pure _
  | .max, fuel + 1, _, _ => Reads.pure _

/-- So are the elements of a document. -/
theorem reads_elems : ∀ (d : Doc) {fuel : Nat}, d.elems.length < 2147483648 →
    d.elems.length < fuel → Reads (parseElems fuel) (d.elems ++ [0]) d
  | d, 0, _, hfuel => absurd hfuel (Nat.not_lt_zero _)
  | .nil, fuel + 1, _, _ => fun _ => by
      rw [Doc.elems_nil]
      rfl
  | .cons key value rest, fuel + 1, h, hfuel => by
      simp only [Doc.elems_cons, List.length_append, element_length] at h hfuel
      have hvalue : Reads (parseValue fuel value.type) value.encode value :=
        reads_value value (by omega) (by omega)
      have hrest : Reads (parseElems fuel) (rest.elems ++ [0]) rest :=
        reads_elems rest (by omega) (by omega)
      have hread := (reads_byte value.type.toByte).bind
        (f := fun b => if b = 0 then (return .nil : Parser Doc) else do
          let key ← cstring
          let value ← parseValue fuel (.ofByte b)
          Doc.cons key value <$> parseElems fuel)
        (by
          rw [if_neg value.toByte_ne_zero, BsonType.ofByte_toByte value.type_ne_other]
          exact (reads_cstring key).bind (hvalue.bind hrest.map))
      have hbytes : (Doc.cons key value rest).elems ++ [0]
          = [value.type.toByte] ++ (key.image ++ (value.encode ++ (rest.elems ++ [0]))) := by
        simp [element]
      rw [hbytes]
      exact hread

end

/-- An object that encodes a document is decoded to that document. -/
theorem Bson.Encodes.decode {b : Bson} {d : Doc} (h : b.Encodes d) : b.decode = some d := by
  have hsmall := h.small
  rw [h.data_eq, Doc.encode_length] at hsmall
  obtain ⟨w, hw, -⟩ := reads_size hsmall
  have hread : Reads (word32 >>= fun _ => parseElems b.data.length) b.data d := by
    rw [h.data_eq, Doc.encode_length, Doc.encode, frame]
    exact hw.bind (reads_elems d (by omega) (by omega))
  rw [Bson.decode, if_pos h.finished, hread.run]

/-- An object stands for one document. -/
theorem Bson.Encodes.unique {b : Bson} {d e : Doc} (hd : b.Encodes d) (he : b.Encodes e) : d = e :=
  Option.some.inj (hd.decode.symm.trans he.decode)

end LibMongo
