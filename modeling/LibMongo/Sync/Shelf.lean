import LibMongo.Bson.Decode
import LibMongo.Sync.Database

/-!
# A server with a shelf

A database that can be run: it keeps the documents it is sent, and returns them one at a time.
-/

namespace LibMongo

open Bytes Program

/-! ## Doubles -/

/-- The double of a number below `2 ^ 53`. -/
def doubleOf (n : Nat) : GDouble :=
  if n = 0 then 0 else BitVec.ofNat 64 ((1022 + n.log2) * 2 ^ 52 + n * 2 ^ (52 - n.log2))

theorem truncated_doubleOf {n : Nat} (h : n < 9007199254740992) : truncated (doubleOf n) = n := by
  by_cases hzero : n = 0
  · subst hzero
    decide
  · obtain ⟨k, hk⟩ : ∃ k, n.log2 = k := ⟨_, rfl⟩
    have hlow : 2 ^ k ≤ n := hk ▸ Nat.log2_self_le hzero
    have hhigh : n < 2 ^ (k + 1) := hk ▸ Nat.lt_log2_self
    have hk52 : k ≤ 52 := by
      have hlt : 2 ^ k < 2 ^ 53 := lt_of_le_of_lt hlow h
      have := (Nat.pow_lt_pow_iff_right (by decide : 1 < 2)).mp hlt
      omega
    -- the fraction, with the bit in front of it
    obtain ⟨m, hm⟩ : ∃ m, n * 2 ^ (52 - k) = 2 ^ 52 + m := by
      refine Nat.exists_eq_add_of_le ?_
      calc 2 ^ 52 = 2 ^ k * 2 ^ (52 - k) := by rw [← pow_add, Nat.add_sub_cancel' hk52]
        _ ≤ n * 2 ^ (52 - k) := Nat.mul_le_mul_right _ hlow
    have hmlt : m < 2 ^ 52 := by
      have hlt : n * 2 ^ (52 - k) < 2 ^ 53 := by
        calc n * 2 ^ (52 - k) < 2 ^ (k + 1) * 2 ^ (52 - k) :=
              Nat.mul_lt_mul_of_pos_right hhigh (Nat.two_pow_pos _)
          _ = 2 ^ 53 := by rw [← pow_add]; congr 1; omega
      omega
    have hbits : (doubleOf n).toNat = (1023 + k) * 2 ^ 52 + m := by
      rw [doubleOf, if_neg hzero, hk, hm, BitVec.toNat_ofNat]
      omega
    have hexp : (doubleOf n).toNat / 2 ^ 52 % 2048 = 1023 + k := by
      rw [hbits]
      omega
    have hfrac : (doubleOf n).toNat % 2 ^ 52 = m := by
      rw [hbits]
      omega
    have hmsb : (doubleOf n).msb = false := by
      rw [BitVec.msb_eq_false_iff_two_mul_lt, hbits]
      omega
    have hdiv : (2 ^ 52 + m) / 2 ^ (1075 - (1023 + k)) = n := by
      rw [← hm, show 1075 - (1023 + k) = 52 - k by omega]
      exact Nat.mul_div_cancel n (Nat.two_pow_pos _)
    unfold truncated
    simp only [hexp, hfrac, hmsb]
    rw [if_neg (by simp), if_neg (by omega), if_pos (by omega), hdiv]

/-! ## A server with a shelf -/

/-- A document that is small enough. -/
abbrev Small := { d : Doc // d.encode.length < 16777216 }

/-- The document of these bytes, if they are one and it is small. -/
def Small.ofBytes (bytes : Bytes) : Option Small :=
  (Bson.decode ⟨bytes, true⟩).bind fun d =>
    if h : d.encode.length < 16777216 then some ⟨d, h⟩ else none

theorem Small.ofBytes_encode (d : Small) : Small.ofBytes d.1.encode = some d := by
  have hsmall := d.2
  have hdecode : Bson.decode ⟨d.1.encode, true⟩ = some d.1 :=
    Bson.Encodes.decode ⟨rfl, rfl, by dsimp only; omega⟩
  rw [ofBytes, hdecode, Option.bind_some, dif_pos hsmall]

/-- The documents of the collections, and of the cursors. -/
structure Shelf where
  docs : CString → List Small
  left : BitVec 64 → List Small
  last : BitVec 64

namespace Shelf

/-- A response without a document. -/
def without (flags : BitVec 32) : Response := ⟨0, flags, 0, 0, [], by decide⟩

/-- One document, and a cursor for the others. -/
def one (cursorId : BitVec 64) (d : Small) : Response :=
  ⟨0, 0, cursorId, 0, [d.1], by
    have := d.2
    rw [List.flatMap_cons, List.flatMap_nil, List.append_nil]
    omega⟩

/-- The answer to every command. -/
def agreement (x : GDouble) : Doc :=
  .cons ismasterKey (.boolean 1) (.cons errKey .null (.cons numberKey (.double x)
    (.cons okKey (.double doubleOne) .nil)))

theorem agreement_length (x : GDouble) : (agreement x).encode.length = 44 := by
  simp [agreement, Doc.encode_length, element_length, Value.encode, CString.length, ismasterKey,
    errKey, numberKey, okKey, CString.ascii]

/-- The number of documents in the collection that a command on the namespace names. -/
def number (s : Shelf) (ns : CString) (command : Bytes) : Nat :=
  match (Bson.decode ⟨command, true⟩).bind fun d => (d.lookup countKey).bind Value.asText with
  | none => 0
  | some coll => (s.docs (collectionNs (CString.ofBytes (ns.bytes.take (ns.bytes.length - 5))) coll)).length

/-- The reply to a command, which always succeeds. -/
def agree (s : Shelf) (ns : CString) (command : Bytes) : Response :=
  ⟨0, 0, 0, 0, [agreement (doubleOf (s.number ns command))], by
    rw [List.flatMap_cons, List.flatMap_nil, List.append_nil, agreement_length]
    decide⟩

/-- One document is returned at a time. -/
def serve (s : Shelf) : WireMessage → Shelf × Response
  | .insert ns docs =>
      ({ s with docs := Function.update s.docs ns (s.docs ns ++ docs.filterMap Small.ofBytes) },
        without 0)
  | .query ns _ _ _ q _ =>
      if IsCommand ns then (s, s.agree ns q)
      else
        match s.docs ns with
        | [] => (s, without 0)
        | d :: ds =>
            ({ s with left := Function.update s.left (s.last + 1) ds, last := s.last + 1 },
              one (s.last + 1) d)
  | .getMore _ _ cursorId =>
      match s.left cursorId with
      | [] => (s, without replyFlagNoCursor)
      | d :: ds => ({ s with left := Function.update s.left cursorId ds }, one cursorId d)
  | .killCursors cids => ({ s with left := fun c => if c ∈ cids then [] else s.left c }, without 0)
  | _ => (s, without 0)

/-- The documents of a collection. -/
def contents (s : Shelf) (ns : CString) : List Doc := (s.docs ns).map Subtype.val

/-- The documents behind a cursor. -/
def behind (s : Shelf) (cursorId : BitVec 64) : List Doc := (s.left cursorId).map Subtype.val

variable (s : Shelf)

theorem serve_command (db : CString) (flags : BitVec 32) (command : Doc) :
    s.serve (commandMessage db flags command) = (s, s.agree (db.append cmdSuffix) command.encode) :=
  if_pos (List.suffix_append db.bytes cmdSuffix.bytes)

theorem agree_succeeds (ns : CString) (command : Bytes) :
    (s.agree ns command).Succeeds (agreement (doubleOf (s.number ns command))) :=
  ⟨by simp [agree], ⟨[], rfl⟩, rfl⟩

theorem number_count (db : CString) {coll : CString}
    (hsmall : (countDoc coll none).encode.length < 2147483648) :
    s.number (db.append cmdSuffix) (countDoc coll none).encode
      = (s.contents (collectionNs db coll)).length := by
  have hdecode : Bson.decode ⟨(countDoc coll none).encode, true⟩ = some (countDoc coll none) :=
    Bson.Encodes.decode ⟨rfl, rfl, hsmall⟩
  have hcoll : ((countDoc coll none).lookup countKey).bind Value.asText = some coll := by
    simp [countDoc, Doc.lookup, Value.asText, CString.ofBytes_bytes]
  have hdb : (db.append cmdSuffix).bytes.take ((db.append cmdSuffix).bytes.length - 5) = db.bytes := by
    rw [show (db.append cmdSuffix).bytes = db.bytes ++ cmdSuffix.bytes from rfl, List.length_append]
    exact List.take_left' rfl
  rw [number, hdecode, Option.bind_some, hcoll]
  dsimp only
  rw [hdb, CString.ofBytes_bytes, contents, List.length_map]

theorem insert_contents (ns : CString) {docs : List Doc}
    (hsmall : ∀ d ∈ docs, d.encode.length < 16777216) :
    (s.serve (.insert ns (docs.map Doc.encode))).1.contents
      = Function.update s.contents ns (s.contents ns ++ docs) := by
  have hdecoded : ((docs.map Doc.encode).filterMap Small.ofBytes).map Subtype.val = docs := by
    induction docs with
    | nil => rfl
    | cons d docs ih =>
        have hd := Small.ofBytes_encode ⟨d, hsmall d List.mem_cons_self⟩
        have hrest := ih fun e he => hsmall e (List.mem_cons_of_mem d he)
        rw [List.map_cons, List.filterMap_cons_some hd, List.map_cons, hrest]
  funext ns'
  by_cases h : ns' = ns
  · subst h
    rw [serve, contents]
    dsimp only
    rw [Function.update_self, Function.update_self, List.map_append, hdecoded]
    rfl
  · rw [serve, contents]
    dsimp only
    rw [Function.update_of_ne h, Function.update_of_ne h]
    rfl

theorem query_pages (ns : CString) (flags ret : BitVec 32) (q : Bytes) (hns : ¬ IsCommand ns) :
    (s.serve (.query ns flags 0 ret q none)).1.contents = s.contents ∧
      (s.serve (.query ns flags 0 ret q none)).2.Pages replyFlagQueryFail
        ((s.serve (.query ns flags 0 ret q none)).1.behind
          (s.serve (.query ns flags 0 ret q none)).2.cursorId) (s.contents ns) := by
  rw [serve, if_neg hns, contents]
  cases s.docs ns with
  | nil => exact ⟨rfl, .empty (.inr rfl)⟩
  | cons d ds =>
      refine ⟨rfl, ?_⟩
      have hbehind : Shelf.behind
          { s with left := Function.update s.left (s.last + 1) ds, last := s.last + 1 } (s.last + 1)
          = ds.map Subtype.val := by
        simp [behind]
      have hpage : (one (s.last + 1) d).Pages replyFlagQueryFail (ds.map Subtype.val)
          ((d :: ds).map Subtype.val) := .page (by simp [one]) (List.cons_ne_nil _ _)
      rw [← hbehind] at hpage
      exact hpage

theorem getMore_pages (ns : CString) (ret : BitVec 32) (cursorId : BitVec 64) :
    (s.serve (.getMore ns ret cursorId)).1.contents = s.contents ∧
      (s.serve (.getMore ns ret cursorId)).2.Pages replyFlagNoCursor
        ((s.serve (.getMore ns ret cursorId)).1.behind
          (s.serve (.getMore ns ret cursorId)).2.cursorId) (s.behind cursorId) := by
  have hlost : (without replyFlagNoCursor).flags &&& replyFlagNoCursor ≠ 0 := by decide
  rw [serve, show s.behind cursorId = (s.left cursorId).map Subtype.val from rfl]
  cases s.left cursorId with
  | nil => exact ⟨rfl, .empty (.inl hlost)⟩
  | cons d ds =>
      refine ⟨rfl, ?_⟩
      have hbehind : Shelf.behind { s with left := Function.update s.left cursorId ds } cursorId
          = ds.map Subtype.val := by
        simp [behind]
      have hpage : (one cursorId d).Pages replyFlagNoCursor (ds.map Subtype.val)
          ((d :: ds).map Subtype.val) := .page (by simp [one]) (List.cons_ne_nil _ _)
      rw [← hbehind] at hpage
      exact hpage

end Shelf

/-- The server as a service. -/
def shelfService : Service Shelf where
  order := .big
  strerror _ := .ascii ['e', 'r', 'r', 'o', 'r']
  md5 _ := .ascii ['m', 'd', '5']
  accepts _ _ := true
  serve := Shelf.serve

/-- The shelf keeps collections as a database promises. -/
def shelfDatabase : Database shelfService where
  contents := Shelf.contents
  left := Shelf.behind
  selects _ _ := true
  selects_nil _ := rfl
  isMaster s flags := by
    show (s.serve _).1.contents = _ ∧ (s.serve _).1.behind = _ ∧ ∃ d b, (s.serve _).2.Succeeds d ∧ _
    rw [s.serve_command]
    exact ⟨rfl, rfl, _, 1, s.agree_succeeds _ _, rfl, by decide⟩
  getLastError s db flags := by
    show (s.serve _).1.contents = _ ∧ ∃ d, (s.serve _).2.Succeeds d ∧ _
    rw [s.serve_command]
    exact ⟨rfl, _, s.agree_succeeds _ _, rfl⟩
  count s db coll flags hsmall := by
    show (s.serve _).1.contents = _ ∧ ∃ d x, (s.serve _).2.Succeeds d ∧ _
    rw [s.serve_command]
    refine ⟨rfl, _, _, s.agree_succeeds _ _, rfl, fun h => ?_⟩
    rw [s.number_count db hsmall, truncated_doubleOf h]
  insert s ns docs hsmall := s.insert_contents ns hsmall
  find s ns flags ret q hns _ := by
    rw [List.filter_true]
    exact s.query_pages ns flags ret q.encode hns
  getMore s ns ret cursorId := s.getMore_pages ns ret cursorId
  killCursors _ _ := rfl

end LibMongo
