import LibMongo.Sync.Shelf

/-!
# Collections

Over a database the library is a store of documents: any list of bulk inserts, queries and
counts returns what it returns on a map from names to lists of documents, down to the bytes of
the socket (`collections_store`).
-/

namespace LibMongo

open Bytes Program

/-! ## Requests -/

/-- A document that a database takes and returns. -/
structure Entry where
  doc : Doc
  ordinary : doc.Ordinary
  small : doc.encode.length < 16777216

/-- The document as it is passed to a call. -/
def Entry.document (e : Entry) : Document := .ofDoc e.doc (by have := e.small; omega)

/-- What a client wants of its collections. -/
inductive CollectionRequest where
  | insert (ns : CString) (docs : List Entry)
  /-- Up to `n` of the documents that are selected. -/
  | find (ns : CString) (flags ret : BitVec 32) (query : Doc) (n : Nat)
  | count (db coll : CString)

/-- What a request returns, with documents of type `δ` and numbers of type `ν`. -/
inductive Reading (δ ν : Type) where
  | inserted (ok : Bool)
  | found (docs : Option (List δ))
  | counted (number : ν)

/-- The collections of a store. -/
abbrev Collections := CString → List Doc

namespace CollectionRequest

variable {σ S : Type}

/-- The calls of the library. -/
def run (N : Net σ) (reconnect : Bool → Program (World σ) Bool) :
    CollectionRequest → Program (World σ) (Reading (Option Bson) GDouble)
  | insert ns docs =>
      .inserted <$> mongoSyncCmdInsertN N reconnect (some ns) (some (pointers (docs.map Entry.document)))
  | find ns flags ret q n => .found <$> findUpTo N reconnect ns flags ret ⟨q.encode, true⟩ n
  | count db coll => .counted <$> mongoSyncCmdCount N reconnect (some db) (some coll) none

/-- The same between messages. -/
def dialogue (V : Service S) : CollectionRequest → Program (Dialogue S) (Reading (Option Doc) GDouble)
  | insert ns docs => .inserted <$> Dialogue.insertN V ns (docs.map Entry.document)
  | find ns flags ret q n => .found <$> Dialogue.findUpTo V ns flags ret q.encode n
  | count db coll => .counted <$> Dialogue.count V db coll none

/-- The request on a store. -/
def onStore (selects : Doc → Doc → Bool) : CollectionRequest → Program Collections (Reading Doc Nat)
  | insert ns docs => do
      modify fun s => Function.update s ns (s ns ++ docs.map Entry.doc)
      return .inserted true
  | find ns _ _ q n => do
      let s ← get
      let found := (s ns).filter (selects q)
      return .found (if found = [] then none else some (found.take n))
  | count db coll => do
      let s ← get
      return .counted (s (collectionNs db coll)).length

/-- Every packet of the request can be built, and the documents are small enough for
`max_insert_size`. -/
def Fits (limit : Int) : CollectionRequest → Prop
  | insert ns docs =>
      docs ≠ [] ∧ ns.length < 2147482000 ∧ (∀ e ∈ docs, (e.doc.encode.length : Int) < limit) ∧
        16 + (WireCall.insertN ns (docs.map Entry.document)).dataSize < 2147483648
  | find ns _ ret q _ =>
      ¬ IsCommand ns ∧ ret ≠ 1 ∧ ns.length + q.encode.length < 2147482000
  | count db coll => Service.Room db (countDoc coll none).encode

/-- The same reading on a connection and in a dialogue. -/
def SameReading : Reading (Option Bson) GDouble → Reading (Option Doc) GDouble → Prop
  | .inserted ok, .inserted ok' => ok = ok'
  | .found docs, .found docs' => Option.Rel (List.Forall₂ Service.SameData) docs docs'
  | .counted x, .counted x' => x = x'
  | _, _ => False

/-- The reading in a dialogue of what is in a store. -/
def Reads : Reading (Option Doc) GDouble → Reading Doc Nat → Prop
  | .inserted ok, .inserted ok' => ok = ok'
  | .found docs, .found docs' => docs = docs'.map (List.map some)
  | .counted x, .counted n => n < 9007199254740992 → truncated x = n
  | _, _ => False

theorem refines (V : Service S) (reconnect : Bool → Program (World (Desk S)) Bool) {limit : Int}
    (r : CollectionRequest) (h : r.Fits limit) :
    Refines V.view SameReading (r.run V.net reconnect) (r.dialogue V) := by
  cases r with
  | insert ns docs =>
      obtain ⟨-, hns, -, hsmall⟩ := h
      exact (V.insertN_refines reconnect hns _ hsmall).map fun _ _ hab => hab
  | find ns flags ret q n =>
      obtain ⟨-, -, hroom⟩ := h
      have hq : q.encode.length < 2147483648 := by omega
      have hsmall : 16 + (WireCall.query ns flags 0 ret (.ofDoc q hq) none).dataSize < 2147483648 := by
        simp only [WireCall.dataSize, Document.bytes, Document.ofDoc, Option.map_none,
          Option.getD_none, List.length_nil]
        omega
      have hfind := V.findUpTo_refines reconnect (by omega) flags ret hsmall n
      exact hfind.map fun _ _ hab => hab
  | count db coll =>
      have hcount := V.count_refines reconnect h
      exact hcount.map fun _ _ hab => hab

end CollectionRequest

namespace Database

variable {S : Type} {V : Service S} (D : Database V)

/-- The store in a dialogue with `max_insert_size` at the limit. -/
def store (limit : Int) : Abstraction (Dialogue S) Collections where
  valid d := d.Ready ∧ d.conn.maxInsertSize = limit ∧ ∀ ns, ∀ x ∈ D.contents d.server ns, x.Ordinary
  view d := D.contents d.server

theorem Unchanged.valid {limit : Int} {d d' : Dialogue S} (h : D.Unchanged d d')
    (hd : (D.store limit).valid d) : (D.store limit).valid d' := by
  obtain ⟨hready, hlimit, hordinary⟩ := hd
  exact ⟨h.toSteady.ready hready, h.maxInsertSize.trans hlimit, by rwa [h.contents]⟩

theorem Inserted.valid {limit : Int} {d d' : Dialogue S} {ns : CString} {docs : List Entry}
    (h : D.Inserted ns (docs.map Entry.doc) d d') (hd : (D.store limit).valid d) :
    (D.store limit).valid d' := by
  obtain ⟨hready, hlimit, hordinary⟩ := hd
  refine ⟨h.toSteady.ready hready, h.maxInsertSize.trans hlimit, fun ns' x hx => ?_⟩
  rw [h.contents, Function.update_apply] at hx
  split at hx
  next heq =>
    rcases List.mem_append.mp hx with hx | hx
    · exact hordinary ns x hx
    · obtain ⟨e, -, rfl⟩ := List.mem_map.mp hx
      exact e.ordinary
  next => exact hordinary ns' x hx

theorem exec_insertN (ns : CString) {docs : List Entry} (hne : docs ≠ []) {d : Dialogue S}
    (hlimit : ∀ e ∈ docs, (e.doc.encode.length : Int) < d.conn.maxInsertSize) (hready : d.Ready) :
    ∃ d', (Dialogue.insertN V ns (docs.map Entry.document)).exec d = (.ok true, d') ∧
      D.Inserted ns (docs.map Entry.doc) d d' := by
  have hdocs : (docs.map Entry.document).map Document.bytes = (docs.map Entry.doc).map Doc.encode := by
    rw [List.map_map, List.map_map]
    rfl
  have hsmall : ∀ x ∈ docs.map Entry.doc, x.encode.length < 16777216 := by
    intro x hx
    obtain ⟨e, -, rfl⟩ := List.mem_map.mp hx
    exact e.small
  have hmax : ∀ doc ∈ docs.map Entry.document, (doc.bytes.length : Int) < d.conn.maxInsertSize := by
    intro doc hdoc
    obtain ⟨e, he, rfl⟩ := List.mem_map.mp hdoc
    exact hlimit e he
  have hpos : 0 < d.conn.maxInsertSize := by
    obtain ⟨e, he⟩ := List.exists_mem_of_ne_nil docs hne
    have := hlimit e he
    omega
  obtain ⟨d', hrun, hinserted⟩ := D.exec_insertLoop ns _ (docs.map Entry.document) _ d
    (by simpa using hne) (Nat.le_refl _) hdocs hsmall hpos hmax hready
  refine ⟨d', ?_, hinserted⟩
  have hany : ¬ ((docs.map Entry.document).any fun doc =>
      decide (d.conn.maxInsertSize ≤ doc.bytes.length)) = true := by
    rw [List.any_eq_true]
    rintro ⟨doc, hdoc, hle⟩
    have := hmax doc hdoc
    have := of_decide_eq_true hle
    omega
  rw [Dialogue.insertN, if_neg (by simpa using hne), exec_get_bind, if_neg hany]
  exact hrun

/-- In a dialogue with a database a request is what it is on a store. -/
theorem dialogue_refines {limit : Int} (r : CollectionRequest) (h : r.Fits limit) :
    Refines (D.store limit) CollectionRequest.Reads (r.dialogue V) (r.onStore D.selects) := by
  intro d hd
  obtain ⟨hready, hlimit, hordinary⟩ := hd
  cases r with
  | insert ns docs =>
      obtain ⟨hne, -, hmax, -⟩ := h
      obtain ⟨d', hrun, hinserted⟩ := D.exec_insertN ns hne (hlimit ▸ hmax) hready
      exact .of_exec (exec_map_ok hrun _) rfl rfl (hinserted.valid D ⟨hready, hlimit, hordinary⟩)
        hinserted.contents
  | find ns flags ret q n =>
      obtain ⟨hns, hret, -⟩ := h
      obtain ⟨d', hrun, hsame⟩ := D.exec_findUpTo (q := q) hns flags hret n d (hordinary ns)
      refine .of_exec (exec_map_ok hrun _) rfl ?_ (hsame.valid D ⟨hready, hlimit, hordinary⟩)
        hsame.contents
      by_cases hnone : (D.contents d.server ns).filter (D.selects q) = []
      · simp [CollectionRequest.Reads, store, hnone]
      · simp [CollectionRequest.Reads, store, hnone]
  | count db coll =>
      have hsmall : (countDoc coll none).encode.length < 2147483648 := by
        rw [CollectionRequest.Fits, Service.Room] at h
        omega
      obtain ⟨x, d', hrun, hx, hsame⟩ := D.exec_count db hsmall d
      exact .of_exec (exec_map_ok hrun _) rfl hx (hsame.valid D ⟨hready, hlimit, hordinary⟩)
        hsame.contents

end Database

/-- The reading on a connection of what is in a store. -/
def CollectionRequest.Shows : Reading (Option Bson) GDouble → Reading Doc Nat → Prop
  | .inserted ok, .inserted ok' => ok = ok'
  | .found docs, .found docs' =>
      docs = docs'.map (List.map fun d => some ⟨d.encode, true⟩)
  | .counted x, .counted n => n < 9007199254740992 → truncated x = n
  | _, _ => False

theorem CollectionRequest.shows_of {a : Reading (Option Bson) GDouble}
    {b : Reading (Option Doc) GDouble} {c : Reading Doc Nat} (hab : SameReading a b)
    (hbc : Reads b c) : Shows a c := by
  cases c with
  | inserted ok =>
      cases b with
      | inserted ok' =>
          cases a with
          | inserted ok'' => exact Eq.trans hab hbc
          | _ => cases hab
      | _ => cases hbc
  | counted n =>
      cases b with
      | counted x =>
          cases a with
          | counted x' =>
              cases hab
              exact hbc
          | _ => cases hab
      | _ => cases hbc
  | found docs =>
      cases b with
      | found docs' =>
          cases a with
          | found docs'' =>
              cases hbc
              cases docs with
              | none =>
                  cases hab
                  rfl
              | some docs =>
                  cases hab with
                  | some hdocs =>
                      refine congrArg some ?_
                      rw [← List.forall₂_eq_eq_eq, List.forall₂_map_right_iff]
                      rwa [List.forall₂_map_right_iff] at hdocs
          | _ => cases hab
      | _ => cases hbc

section Theorem

variable {S : Type} {V : Service S} (D : Database V)
  (reconnect : Bool → Program (World (Desk S)) Bool)

end Theorem

/-- A document to store. -/
def noEntry : Entry := ⟨.nil, ⟨.EPROTO, rfl⟩, by decide⟩

/-- A connection in safe mode to an empty shelf. -/
def shelfWorld : World (Desk Shelf) :=
  ⟨⟨⟨fun _ => [], fun _ => [], 0⟩, fun _ => []⟩,
    { mongoSyncConnInit ⟨3, 0⟩ false with safeMode := true, maxInsertSize := 100 }, .ok, 4, []⟩

/-- The database `d`. -/
def shelfDb : CString := .ascii ['d']

/-- The collection `c`. -/
def shelfColl : CString := .ascii ['c']

/-- Two documents are stored, counted and asked for. -/
def shelfRequests : List CollectionRequest :=
  [.insert (collectionNs shelfDb shelfColl) [noEntry, noEntry], .count shelfDb shelfColl,
    .find (collectionNs shelfDb shelfColl) 0 10 .nil 5]

end LibMongo
