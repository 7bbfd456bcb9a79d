import LibMongo.Gridfs.Closing
import LibMongo.Gridfs.Store
import LibMongo.Base.Interleaving
import Mathlib.Data.Set.Basic

/-!
# A store that several clients share

`Shared` is a store, with all metadata it ever held and all ids that files were given.
`Shared.Answers` says what a call may return and do.  Any insert and any delete may fail.  A
query and a cursor may return anything, but the documents a cursor gives were in the
collection once.

A `Share` is what a client knows of the store.  While it writes a file, the chunks of that
file are its own: they are in the store exactly as it has inserted them.  When it has
inserted the metadata it lets go of the file.  To delete chunks it must know that the file
was there and that its metadata no longer is.

`Consistent` is the invariant of the store and the shares.  Every call that `gridDiscipline`
allows keeps it (`Consistent.call`).
-/

namespace LibMongo

open Bytes Interaction

/-! ## Complete files -/

/-- The blocks of a file of this length: so many that only the last one may be shorter than a
chunk, and together as long as the file. -/
structure Fills (chunkSize length : Nat) (blocks : List Bytes) : Prop where
  pos : 0 < chunkSize
  count : blocks.length = pieceCount chunkSize length
  full : ∀ p ∈ blocks.dropLast, p.length = chunkSize
  sum : (blocks.map List.length).sum = length

/-- The metadata of a file. -/
structure Doc.IsFile (d : Doc) (id : Oid) (length chunkSize : Nat) : Prop where
  id : d.lookup idKey = some (.oid id)
  length : ∃ i, d.lookup lengthKey = some (.int64 i) ∧ i.toInt = length
  chunkSize : ∃ i, d.lookup chunkSizeKey = some (.int32 i) ∧ i.toInt = chunkSize

/-- The chunks of a file, numbered from zero on. -/
def numbered (id : Oid) (blocks : List Bytes) : List Doc :=
  blocks.zipIdx.map fun p => chunkDoc id p.2 p.1

@[simp] theorem numbered_nil (id : Oid) : numbered id [] = [] := rfl

theorem numbered_concat (id : Oid) (blocks : List Bytes) (data : Bytes) :
    numbered id (blocks ++ [data]) = numbered id blocks ++ [chunkDoc id blocks.length data] := by
  simp [numbered, List.zipIdx_append]

theorem mem_numbered (id : Oid) {blocks : List Bytes} {n : Nat} (h : n < blocks.length) :
    chunkDoc id n blocks[n] ∈ numbered id blocks :=
  List.mem_map.mpr ⟨(blocks[n], n), List.mem_zipIdx_iff_getElem?.mpr (by simp [h]), rfl⟩

namespace Store

/-- The chunks of a file. -/
def chunksOf (s : Store) (id : Oid) : List Doc := s.chunks.filter fun d => d.has filesIdKey (.oid id)

/-- All chunks of the file are there, and no others. -/
def Complete (s : Store) (d : Doc) : Prop :=
  ∃ id length chunkSize blocks, d.IsFile id length chunkSize ∧ Fills chunkSize length blocks ∧
    s.chunksOf id = numbered id blocks

/-- No data of a file is missing. -/
def Whole (s : Store) : Prop := ∀ d ∈ s.files, s.Complete d

/-- The store without the documents that match. -/
def remove (s : Store) (coll : Collection) (sel : Doc) : Store :=
  match coll with
  | .files => { s with files := s.files.filter fun d => !d.matchedBy sel }
  | .chunks => { s with chunks := s.chunks.filter fun d => !d.matchedBy sel }

end Store

/-! ## What is taken -/

/-- The document that a server reads in an object, if it fits into a reply. -/
def Taken (b : Option Bson) (d : Doc) : Prop :=
  ∃ x, b = some x ∧ x.data.length < 2147483612 ∧ x.decode = some d

theorem Taken.unique {b : Option Bson} {d e : Doc} (hd : Taken b d) (he : Taken b e) : d = e := by
  obtain ⟨x, rfl, -, hx⟩ := hd
  obtain ⟨y, hy, -, hy'⟩ := he
  cases hy
  rw [hx] at hy'
  exact Option.some.inj hy'

theorem taken_encode {d e : Doc} (h : Taken (some ⟨d.encode, true⟩) e) : e = d := by
  obtain ⟨x, hx, hfits, hdecode⟩ := h
  cases hx
  have hencodes : Bson.Encodes ⟨d.encode, true⟩ d := ⟨rfl, rfl, Nat.lt_trans hfits (by decide)⟩
  rw [hencodes.decode] at hdecode
  exact (Option.some.inj hdecode).symm

theorem not_taken_none {d : Doc} : ¬ Taken none d := by
  rintro ⟨x, hx, -⟩
  cases hx

theorem Store.take_eq_some {s : Store} {coll : Collection} {b : Option Bson} {d : Doc} :
    b.bind (s.take coll) = some d ↔ Taken b d ∧ s.accepts coll d = true := by
  cases b with
  | none => simp [not_taken_none]
  | some x =>
      rw [Option.bind_some, Store.take]
      constructor
      · intro h
        split at h
        next hfits =>
          obtain ⟨hdecode, haccepts⟩ := Option.filter_eq_some_iff.mp h
          exact ⟨⟨x, rfl, hfits, hdecode⟩, haccepts⟩
        next => cases h
      · rintro ⟨⟨y, hy, hfits, hdecode⟩, haccepts⟩
        cases hy
        rw [if_pos hfits]
        exact Option.filter_eq_some_iff.mpr ⟨hdecode, haccepts⟩

/-- There is no room for two chunks of a file with one number. -/
theorem Store.accepts_chunk {s : Store} {id : Oid} {n : Nat} {data : Bytes} {blocks : List Bytes}
    (h : s.accepts .chunks (chunkDoc id n data) = true) (hchunks : s.chunksOf id = numbered id blocks) :
    ¬ n < blocks.length := by
  intro hlt
  have hmem := mem_numbered id hlt
  rw [← hchunks] at hmem
  have hclash := List.all_eq_true.mp h _ (List.mem_filter.mp hmem).1
  simp [Doc.clashes, Collection.keys, Doc.has] at hclash

/-! ## The shared store -/

/-- The store of several clients. -/
structure Shared where
  store : Store
  /-- The metadata that was in the store at any time. -/
  seen : List Doc
  ids : List Oid

namespace Shared

/-- A document is added, and metadata is seen from then on. -/
def add (s : Shared) (coll : Collection) (d : Doc) : Shared :=
  match coll with
  | .files => { s with store := s.store.add .files d, seen := d :: s.seen }
  | .chunks => { s with store := s.store.add .chunks d }

/-- The documents that are selected are gone. -/
def remove (s : Shared) (coll : Collection) (sel : Doc) : Shared :=
  { s with store := s.store.remove coll sel }

/-- The ids of files are distinct. -/
def name (s : Shared) (id : Oid) : Shared := { s with ids := id :: s.ids }

/-- What a call returns, and the store it leaves. -/
inductive Answers : Shared → (c : GridCall) → c.Response → Shared → Prop
  | oidNew {s : Shared} {id : Oid} : id ∉ s.ids → Answers s .oidNew (some id) (s.name id)
  | oidNewFailed {s : Shared} : Answers s .oidNew none s
  | getCurrentTime {s : Shared} (tv : GTimeVal) : Answers s .getCurrentTime tv s
  | insert {s : Shared} {coll : Collection} {doc : Option Bson} {d : Doc} :
      doc.bind (s.store.take coll) = some d →
      Answers s (.insert coll doc) (.ok ()) (s.add coll d)
  | insertFailed {s : Shared} {coll : Collection} {doc : Option Bson} (e : Errno) :
      Answers s (.insert coll doc) (.error e) s
  | delete {s : Shared} {coll : Collection} {sel : Option Bson} {d : Doc} :
      sel.bind Bson.decode = some d → Answers s (.delete coll sel) (.ok ()) (s.remove coll d)
  | deleteFailed {s : Shared} {coll : Collection} {sel : Option Bson} (e : Errno) :
      Answers s (.delete coll sel) (.error e) s
  | query {s : Shared} {coll : Collection} {n : BitVec 32} {q : Option Bson}
      (r : Except Errno MongoPacket) : Answers s (.query coll n q) r s
  | cursorNew {s : Shared} {coll : Collection} {p : Option MongoPacket}
      (r : Except Errno MongoSyncCursor) : Answers s (.cursorNew coll p) r s
  | cursorNext {s : Shared} {c : MongoSyncCursor} (r : Bool × MongoSyncCursor) :
      Answers s (.cursorNext c) r s
  | cursorGetData {s : Shared} {c : MongoSyncCursor} {b : Bson} {d : Doc} : d ∈ s.seen →
      b.Encodes d → Answers s (.cursorGetData c) (some b) s
  | cursorGetNoData {s : Shared} {c : MongoSyncCursor} : Answers s (.cursorGetData c) none s
  | cursorFree {s : Shared} {c : MongoSyncCursor} (e : Errno) : Answers s (.cursorFree c) e s

/-- There was a file with this id. -/
def Saw (s : Shared) (id : Oid) : Prop := ∃ d ∈ s.seen, d.lookup idKey = some (.oid id)

/-- There is one now. -/
def Has (s : Shared) (id : Oid) : Prop := ∃ d ∈ s.store.files, d.lookup idKey = some (.oid id)

/-- The store as one finds it: all files are whole, and all ids that are in use are known. -/
structure Ready (s : Shared) : Prop where
  whole : s.store.Whole
  seen : ∀ d ∈ s.store.files, d ∈ s.seen
  files : ∀ id, s.Saw id → id ∈ s.ids
  chunks : ∀ d ∈ s.store.chunks, ∀ id, d.has filesIdKey (.oid id) = true → id ∈ s.ids

end Shared

/-! ## Shares -/

/-- What a client knows of the store: the blocks of the files it writes, ids of files that
were there once, and ids of files that will never be there again. -/
structure Share where
  writing : Oid → Option (List Bytes)
  known : Set Oid
  gone : Set Oid

namespace Share

/-- A client that has done nothing yet. -/
def none : Share := ⟨fun _ => .none, ∅, ∅⟩

/-- These blocks of a file are written. -/
def put (g : Share) (id : Oid) (blocks : List Bytes) : Share :=
  { g with writing := Function.update g.writing id (some blocks) }

/-- Nothing more is written for a file. -/
def letGo (g : Share) (id : Oid) : Share :=
  { g with writing := Function.update g.writing id .none }

/-- The id in this metadata is known. -/
def learn (g : Share) (b : Bson) : Share :=
  { g with known := g.known ∪ {id | ∃ d, b.Encodes d ∧ d.lookup idKey = some (.oid id)} }

/-- The metadata of a file that was known is deleted. -/
def lose (g : Share) (sel : Option Bson) : Share :=
  { g with gone := g.gone ∪ {id | id ∈ g.known ∧ sel = oidQuery idKey id} }

/-- The calls that a client makes while it holds this share. -/
def may (g : Share) : GridCall → Prop
  | .insert .chunks doc => ∀ d, Taken doc d → ∃ id n data blocks, d = chunkDoc id n data ∧
      g.writing id = some blocks ∧ n ≤ blocks.length
  | .insert .files doc => ∀ d, Taken doc d → ∃ id length chunkSize blocks,
      g.writing id = some blocks ∧ d.IsFile id length chunkSize ∧ Fills chunkSize length blocks
  | .delete .chunks sel => ∃ id ∈ g.gone, sel = oidQuery filesIdKey id
  | _ => True

/-- What it holds after an answer. -/
def after (g : Share) : (c : GridCall) → c.Response → Share → Prop
  | .oidNew, some id, g' => g.writing id = .none ∧ g' = g.put id []
  | .insert .chunks doc, .ok (), g' => ∃ id data blocks, Taken doc (chunkDoc id blocks.length data) ∧
      g.writing id = some blocks ∧ g' = g.put id (blocks ++ [data])
  | .insert .files doc, .ok (), g' => ∃ d id, Taken doc d ∧ d.lookup idKey = some (.oid id) ∧
      g' = g.letGo id
  | .delete .files sel, .ok (), g' => g' = g.lose sel
  | .cursorGetData _, some b, g' => (∃ d, b.Encodes d) ∧ g' = g.learn b
  | _, _, g' => g' = g

end Share

/-- Only who writes a file inserts its chunks and its metadata, and only chunks of files that
are gone are deleted. -/
def gridDiscipline : Discipline GridCall GridCall.Response Share := ⟨Share.may, Share.after⟩

/-! ## The invariant -/

namespace Shared

/-- What a client knows is so. -/
structure Backs (s : Shared) (g : Share) : Prop where
  writing : ∀ id blocks, g.writing id = some blocks →
    id ∈ s.ids ∧ ¬ s.Saw id ∧ s.store.chunksOf id = numbered id blocks
  known : ∀ id ∈ g.known, s.Saw id
  gone : ∀ id ∈ g.gone, s.Saw id ∧ ¬ s.Has id

section Steps

variable {s s' : Shared} {g : Share} {id : Oid}

@[simp] theorem saw_name (s : Shared) (id id' : Oid) : (s.name id').Saw id ↔ s.Saw id := Iff.rfl

@[simp] theorem has_name (s : Shared) (id id' : Oid) : (s.name id').Has id ↔ s.Has id := Iff.rfl

@[simp] theorem saw_add_chunk (s : Shared) (d : Doc) (id : Oid) :
    (s.add .chunks d).Saw id ↔ s.Saw id := Iff.rfl

@[simp] theorem has_add_chunk (s : Shared) (d : Doc) (id : Oid) :
    (s.add .chunks d).Has id ↔ s.Has id := Iff.rfl

theorem saw_add_file {d : Doc} (hd : d.lookup idKey = some (.oid id)) (id' : Oid) :
    (s.add .files d).Saw id' ↔ id' = id ∨ s.Saw id' := by
  simp [Saw, add, hd, eq_comm]

theorem has_add_file {d : Doc} (hd : d.lookup idKey = some (.oid id)) (id' : Oid) :
    (s.add .files d).Has id' ↔ s.Has id' ∨ id' = id := by
  simp [Has, add, Store.add, hd, or_and_right, exists_or, eq_comm]

@[simp] theorem saw_remove (s : Shared) (coll : Collection) (sel : Doc) (id : Oid) :
    (s.remove coll sel).Saw id ↔ s.Saw id := Iff.rfl

end Steps

end Shared

namespace Store

variable {s : Store} {id id' : Oid}

/-- A chunk of another file. -/
theorem chunksOf_add_of_ne (hne : id' ≠ id) (n : Nat) (data : Bytes) :
    (s.add .chunks (chunkDoc id n data)).chunksOf id' = s.chunksOf id' := by
  simp [chunksOf, add, List.filter_append, Doc.has, hne]

/-- The next chunk of a file. -/
theorem chunksOf_add {blocks : List Bytes} (h : s.chunksOf id = numbered id blocks) (data : Bytes) :
    (s.add .chunks (chunkDoc id blocks.length data)).chunksOf id = numbered id (blocks ++ [data]) := by
  rw [numbered_concat, ← h]
  simp [chunksOf, add, List.filter_append, Doc.has]

/-- The chunks of other files stay. -/
theorem chunksOf_remove_of_ne (hne : id' ≠ id) :
    (s.remove .chunks (.cons filesIdKey (.oid id) .nil)).chunksOf id' = s.chunksOf id' := by
  simp only [chunksOf, remove, List.filter_filter]
  apply List.filter_congr
  intro d _
  by_cases hd : d.has filesIdKey (.oid id') = true
  · have hother : d.has filesIdKey (.oid id) = false := by
      rw [Bool.eq_false_iff, ne_eq, Doc.has_oid, Doc.has_oid.mp hd]
      simpa using hne
    simp [hd, hother, Doc.matchedBy]
  · simp [hd]

end Store

/-- The store is whole, what the clients know of it is so, and no two of them write the same
file. -/
structure Consistent {ι : Type} (s : Shared) (gs : ι → Share) : Prop extends s.Ready where
  backs : ∀ i, s.Backs (gs i)
  apart : ∀ i j id, (gs i).writing id ≠ none → (gs j).writing id ≠ none → i = j

section Consistent

variable {ι : Type} {s s' : Shared} {gs : ι → Share} {i : ι} {g : Share}

/-- Only one client writes a file. -/
theorem Consistent.alone (h : Consistent s gs) {j : ι} (hj : j ≠ i) {id : Oid} {blocks : List Bytes}
    (hid : (gs i).writing id = some blocks) : (gs j).writing id = none := by
  by_contra hother
  exact hj (h.apart j i id hother (by simp [hid]))

/-- What is to be shown for a step of one client. -/
theorem Consistent.step [DecidableEq ι] (h : Consistent s gs) (hready : s'.Ready) (hmine : s'.Backs g)
    (hothers : ∀ j, j ≠ i → s'.Backs (gs j))
    (hapart : ∀ id, g.writing id ≠ none → (gs i).writing id ≠ none ∨
      ∀ j, (gs j).writing id = none) : Consistent s' (Function.update gs i g) := by
  have hfree : ∀ j id, j ≠ i → g.writing id ≠ none → (gs j).writing id = none := by
    intro j id hne hid
    rcases hapart id hid with hold | hnew
    · by_contra hj
      exact hne (h.apart j i id hj hold)
    · exact hnew j
  refine ⟨hready, fun j => ?_, fun j k id hj hk => ?_⟩
  · rcases eq_or_ne j i with rfl | hne
    · simpa using hmine
    · simpa [hne] using hothers j hne
  · rcases eq_or_ne j i with rfl | hji
    · rcases eq_or_ne k j with rfl | hkj
      · rfl
      · simp only [Function.update_self, Function.update_of_ne hkj] at hj hk
        exact absurd (hfree k id hkj hj) hk
    · rcases eq_or_ne k i with rfl | hki
      · simp only [Function.update_self, Function.update_of_ne hji] at hj hk
        exact absurd (hfree j id hji hk) hj
      · simp only [Function.update_of_ne hji, Function.update_of_ne hki] at hj hk
        exact h.apart j k id hj hk

/-- What a client knows stays so if its files are left alone. -/
theorem Shared.Backs.of (h : s.Backs g) (hids : ∀ id ∈ s.ids, id ∈ s'.ids)
    (hsaw : ∀ id, s.Saw id → s'.Saw id)
    (hwriting : ∀ id blocks, g.writing id = some blocks →
      ¬ s'.Saw id ∧ s'.store.chunksOf id = s.store.chunksOf id)
    (hgone : ∀ id ∈ g.gone, ¬ s'.Has id) : s'.Backs g where
  writing id blocks hid := by
    obtain ⟨hmem, -, hchunks⟩ := h.writing id blocks hid
    obtain ⟨hnew, hsame⟩ := hwriting id blocks hid
    exact ⟨hids id hmem, hnew, hsame.trans hchunks⟩
  known id hid := hsaw id (h.known id hid)
  gone id hid := ⟨hsaw id (h.gone id hid).1, hgone id hid⟩

/-- A client reads a document that was there. -/
theorem Shared.Backs.learn (h : s.Backs g) {b : Bson} {d : Doc} (hd : d ∈ s.seen)
    (hb : b.Encodes d) : s.Backs (g.learn b) where
  writing := h.writing
  known id hid := by
    rcases hid with hid | ⟨e, he, heid⟩
    · exact h.known id hid
    · cases hb.unique he
      exact ⟨d, hd, heid⟩
  gone := h.gone

/-- A client deletes metadata. -/
theorem Shared.Backs.lose (h : s.Backs g) {sel : Option Bson}
    (hsel : ∀ id, sel = oidQuery idKey id → ¬ s.Has id) : s.Backs (g.lose sel) where
  writing := h.writing
  known := h.known
  gone id hid := by
    rcases hid with hid | ⟨hid, rfl⟩
    · exact h.gone id hid
    · exact ⟨h.known id hid, hsel id rfl⟩

/-- A client begins to write, or writes a block. -/
theorem Shared.Backs.put (h : s.Backs g) {id : Oid} {blocks : List Bytes} (hid : id ∈ s.ids)
    (hsaw : ¬ s.Saw id) (hchunks : s.store.chunksOf id = numbered id blocks) :
    s.Backs (g.put id blocks) where
  writing id' blocks' hid' := by
    rcases eq_or_ne id' id with rfl | hne
    · simp only [Share.put, Function.update_self, Option.some.injEq] at hid'
      cases hid'
      exact ⟨hid, hsaw, hchunks⟩
    · simp only [Share.put, Function.update_of_ne hne] at hid'
      exact h.writing id' blocks' hid'
  known := h.known
  gone := h.gone

/-- It lets go of a file. -/
theorem Shared.Backs.letGo (h : s.Backs g) (id : Oid) : s.Backs (g.letGo id) where
  writing id' blocks hid' := by
    rcases eq_or_ne id' id with rfl | hne
    · simp [Share.letGo] at hid'
    · simp only [Share.letGo, Function.update_of_ne hne] at hid'
      exact h.writing id' blocks hid'
  known := h.known
  gone := h.gone

@[simp] theorem Share.letGo_put (g : Share) (id : Oid) (blocks : List Bytes) :
    (g.letGo id).put id blocks = g.put id blocks := by
  simp [letGo, put]

@[simp] theorem Share.letGo_writing (g : Share) (id : Oid) : (g.letGo id).writing id = .none := by
  simp [letGo]

/-! ## Steps -/

/-- The chunks of a file are deleted that is not to be seen any more. -/
theorem Consistent.clear (h : Consistent s gs) (i : ι) {id : Oid} (hid : id ∈ (gs i).gone) :
    Consistent (s.remove .chunks (.cons filesIdKey (.oid id) .nil)) gs := by
  obtain ⟨hsaw, hnot⟩ := (h.backs i).gone id hid
  refine ⟨⟨?_, h.seen, h.files, ?_⟩, fun j => ?_, h.apart⟩
  · intro d hd
    obtain ⟨id', length, c, blocks, hfile, hfills, hchunks⟩ := h.whole d hd
    refine ⟨id', length, c, blocks, hfile, hfills, ?_⟩
    rw [← hchunks]
    apply Store.chunksOf_remove_of_ne
    rintro rfl
    exact hnot ⟨d, hd, hfile.id⟩
  · intro d hd id' hhas
    exact h.chunks d (List.mem_filter.mp hd).1 id' hhas
  · refine (h.backs j).of (fun _ hmem => hmem) (fun _ hsaw => hsaw) ?_ fun id' hid' =>
      ((h.backs j).gone id' hid').2
    intro id' blocks hid'
    refine ⟨((h.backs j).writing id' blocks hid').2.1, ?_⟩
    apply Store.chunksOf_remove_of_ne
    rintro rfl
    exact ((h.backs j).writing id' blocks hid').2.1 hsaw

variable [DecidableEq ι]

/-- A new id. -/
theorem Consistent.named (h : Consistent s gs) (i : ι) {id : Oid} (hid : id ∉ s.ids) :
    (gs i).writing id = none ∧ Consistent (s.name id) (Function.update gs i ((gs i).put id [])) := by
  have hnone : ∀ j, (gs j).writing id = none := by
    intro j
    by_contra hsome
    obtain ⟨blocks, hblocks⟩ := Option.ne_none_iff_exists'.mp hsome
    exact hid ((h.backs j).writing id blocks hblocks).1
  have hbacks : ∀ j, (s.name id).Backs (gs j) := fun j =>
    (h.backs j).of (fun _ hmem => List.mem_cons_of_mem _ hmem) (fun _ hsaw => hsaw)
      (fun id' blocks hid' => ⟨((h.backs j).writing id' blocks hid').2.1, rfl⟩)
      fun id' hid' => ((h.backs j).gone id' hid').2
  have hempty : s.store.chunksOf id = [] := by
    apply List.filter_eq_nil_iff.mpr
    intro d hd hhas
    exact hid (h.chunks d hd id hhas)
  refine ⟨hnone i, h.step ?_ ?_ (fun j _ => hbacks j) ?_⟩
  · refine ⟨h.whole, h.seen, ?_, ?_⟩
    · intro id' hsaw
      exact List.mem_cons_of_mem _ (h.files id' hsaw)
    · intro d hd id' hhas
      exact List.mem_cons_of_mem _ (h.chunks d hd id' hhas)
  · exact (hbacks i).put List.mem_cons_self (fun hsaw => hid (h.files id hsaw)) hempty
  · intro id' hid'
    rcases eq_or_ne id' id with rfl | hne
    · exact Or.inr hnone
    · left
      simpa [Share.put, hne] using hid'

/-- A share that says nothing of a file does not depend on its chunks. -/
theorem Shared.Backs.add_chunk (h : s.Backs g) {id : Oid} (hid : g.writing id = none) (n : Nat)
    (data : Bytes) : (s.add .chunks (chunkDoc id n data)).Backs g := by
  refine h.of (fun _ hmem => hmem) (fun _ hsaw => hsaw) ?_ fun id' hid' => (h.gone id' hid').2
  intro id' blocks hid'
  refine ⟨(h.writing id' blocks hid').2.1, Store.chunksOf_add_of_ne ?_ n data⟩
  rintro rfl
  simp [hid] at hid'

/-- Nor on its metadata, if there was none. -/
theorem Shared.Backs.add_file (h : s.Backs g) {id : Oid} (hid : g.writing id = none) {d : Doc}
    (hd : d.lookup idKey = some (.oid id)) (hsaw : ¬ s.Saw id) : (s.add .files d).Backs g := by
  refine h.of (fun _ hmem => hmem) (fun id' hsaw' => (Shared.saw_add_file hd id').mpr (.inr hsaw'))
    ?_ ?_
  · intro id' blocks hid'
    refine ⟨?_, rfl⟩
    rw [Shared.saw_add_file hd]
    rintro (rfl | hsaw')
    · simp [hid] at hid'
    · exact (h.writing id' blocks hid').2.1 hsaw'
  · intro id' hid'
    rw [Shared.has_add_file hd]
    rintro (hhas | rfl)
    · exact (h.gone id' hid').2 hhas
    · exact hsaw (h.gone id' hid').1

/-- Another block of a file. -/
theorem Consistent.chunk (h : Consistent s gs) (i : ι) {id : Oid} {blocks : List Bytes} (data : Bytes)
    (hid : (gs i).writing id = some blocks) :
    Consistent (s.add .chunks (chunkDoc id blocks.length data))
      (Function.update gs i ((gs i).put id (blocks ++ [data]))) := by
  obtain ⟨hmem, hsaw, hchunks⟩ := (h.backs i).writing id blocks hid
  refine h.step ?_ ?_ (fun j hj => (h.backs j).add_chunk (h.alone hj hid) _ _) ?_
  · refine ⟨?_, h.seen, h.files, ?_⟩
    · intro d hd
      obtain ⟨id', length, c, blocks', hfile, hfills, hchunks'⟩ := h.whole d hd
      refine ⟨id', length, c, blocks', hfile, hfills, ?_⟩
      rw [← hchunks']
      apply Store.chunksOf_add_of_ne
      rintro rfl
      exact hsaw ⟨d, h.seen d hd, hfile.id⟩
    · intro d hd id' hhas
      rcases List.mem_append.mp hd with hd | hd
      · exact h.chunks d hd id' hhas
      · cases List.mem_singleton.mp hd
        rw [Doc.has_oid, chunkDoc_filesId] at hhas
        cases hhas
        exact hmem
  · have hmine := ((h.backs i).letGo id).add_chunk (Share.letGo_writing _ id) blocks.length data
    have hput := hmine.put hmem hsaw (Store.chunksOf_add hchunks data)
    rwa [Share.letGo_put] at hput
  · intro id' hid'
    left
    rcases eq_or_ne id' id with rfl | hne
    · simp [hid]
    · simpa [Share.put, hne] using hid'

/-- The metadata of a file. -/
theorem Consistent.file (h : Consistent s gs) (i : ι) {id : Oid} {length c : Nat} {blocks : List Bytes}
    {d : Doc} (hid : (gs i).writing id = some blocks) (hfile : d.IsFile id length c)
    (hfills : Fills c length blocks) :
    Consistent (s.add .files d) (Function.update gs i ((gs i).letGo id)) := by
  obtain ⟨hmem, hsaw, hchunks⟩ := (h.backs i).writing id blocks hid
  refine h.step ?_ ?_ (fun j hj => (h.backs j).add_file (h.alone hj hid) hfile.id hsaw) ?_
  · refine ⟨?_, ?_, ?_, h.chunks⟩
    · intro e he
      rcases List.mem_append.mp he with he | he
      · exact h.whole e he
      · cases List.mem_singleton.mp he
        exact ⟨id, length, c, blocks, hfile, hfills, hchunks⟩
    · intro e he
      rcases List.mem_append.mp he with he | he
      · exact List.mem_cons_of_mem _ (h.seen e he)
      · cases List.mem_singleton.mp he
        exact List.mem_cons_self
    · intro id' hsaw'
      rcases (Shared.saw_add_file hfile.id id').mp hsaw' with rfl | hsaw'
      · exact hmem
      · exact h.files id' hsaw'
  · exact ((h.backs i).letGo id).add_file (by simp) hfile.id hsaw
  · intro id' hid'
    left
    rcases eq_or_ne id' id with rfl | hne
    · simp at hid'
    · simpa [Share.letGo, hne] using hid'

/-- A file is made invisible. -/
theorem Consistent.hide (h : Consistent s gs) (i : ι) {sel : Option Bson} {d : Doc}
    (hsel : sel.bind Bson.decode = some d) :
    Consistent (s.remove .files d) (Function.update gs i ((gs i).lose sel)) := by
  have hfiles : ∀ e ∈ (s.remove .files d).store.files, e ∈ s.store.files := fun e he =>
    (List.mem_filter.mp he).1
  have hbacks : ∀ j, (s.remove .files d).Backs (gs j) := by
    intro j
    refine (h.backs j).of (fun _ hmem => hmem) (fun _ hsaw => hsaw) ?_ ?_
    · intro id blocks hid
      exact ⟨((h.backs j).writing id blocks hid).2.1, rfl⟩
    · rintro id hid ⟨e, he, heid⟩
      exact ((h.backs j).gone id hid).2 ⟨e, hfiles e he, heid⟩
  refine h.step ⟨?_, ?_, h.files, h.chunks⟩ ?_ (fun j _ => hbacks j) fun id hid => Or.inl hid
  · intro e he
    exact h.whole e (hfiles e he)
  · intro e he
    exact h.seen e (hfiles e he)
  · refine (hbacks i).lose ?_
    rintro id rfl ⟨e, he, heid⟩
    rw [oidQuery_decode (by decide)] at hsel
    cases hsel
    have hmatch := (List.mem_filter.mp he).2
    simp [Doc.matchedBy, Doc.has_oid.mpr heid] at hmatch

/-- A document was read. -/
theorem Consistent.read (h : Consistent s gs) (i : ι) {b : Bson} {d : Doc} (hd : d ∈ s.seen)
    (hb : b.Encodes d) : Consistent s (Function.update gs i ((gs i).learn b)) :=
  h.step h.toReady ((h.backs i).learn hd hb) (fun j _ => h.backs j) fun _ hid => Or.inl hid

/-- Every allowed call keeps the invariant. -/
theorem Consistent.call (h : Consistent s gs) (i : ι) {c : GridCall} {x : c.Response}
    (hmay : (gs i).may c) (hanswers : s.Answers c x s') :
    ∃ g, (gs i).after c x g ∧ Consistent s' (Function.update gs i g) := by
  have hidle : Consistent s (Function.update gs i (gs i)) := by rwa [Function.update_eq_self]
  cases hanswers with
  | oidNew hid => exact ⟨_, ⟨(h.named i hid).1, rfl⟩, (h.named i hid).2⟩
  | oidNewFailed => exact ⟨_, rfl, hidle⟩
  | getCurrentTime tv => exact ⟨_, rfl, hidle⟩
  | @insert coll doc d htake =>
      obtain ⟨htaken, haccepts⟩ := Store.take_eq_some.mp htake
      cases coll with
      | files =>
          obtain ⟨id, length, c, blocks, hid, hfile, hfills⟩ := hmay d htaken
          exact ⟨_, ⟨d, id, htaken, hfile.id, rfl⟩, h.file i hid hfile hfills⟩
      | chunks =>
          obtain ⟨id, n, data, blocks, rfl, hid, hle⟩ := hmay d htaken
          have hnext := Store.accepts_chunk haccepts ((h.backs i).writing id blocks hid).2.2
          obtain rfl : n = blocks.length := Nat.le_antisymm hle (Nat.not_lt.mp hnext)
          exact ⟨_, ⟨id, data, blocks, htaken, hid, rfl⟩, h.chunk i data hid⟩
  | @insertFailed coll _ e =>
      cases coll with
      | files => exact ⟨_, rfl, hidle⟩
      | chunks => exact ⟨_, rfl, hidle⟩
  | @delete coll sel d hsel =>
      cases coll with
      | files => exact ⟨_, rfl, h.hide i hsel⟩
      | chunks =>
          obtain ⟨id, hid, rfl⟩ := hmay
          rw [oidQuery_decode (by decide)] at hsel
          cases hsel
          exact ⟨_, rfl, by simpa using h.clear i hid⟩
  | @deleteFailed coll _ e =>
      cases coll with
      | files => exact ⟨_, rfl, hidle⟩
      | chunks => exact ⟨_, rfl, hidle⟩
  | query r => exact ⟨_, rfl, hidle⟩
  | cursorNew r => exact ⟨_, rfl, hidle⟩
  | cursorNext r => exact ⟨_, rfl, hidle⟩
  | cursorGetData hd hb => exact ⟨_, ⟨⟨_, hb⟩, rfl⟩, h.read i hd hb⟩
  | cursorGetNoData => exact ⟨_, rfl, hidle⟩
  | cursorFree e => exact ⟨_, rfl, hidle⟩

end Consistent

end LibMongo
