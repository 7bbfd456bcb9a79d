import LibMongo.Bson.RoundTrip

/-!
# Objects under any calls

A client has any number of objects and calls the functions of `bson.c` on them in
any order, also with `NULL` for an object, a key or a value.  `BsonHeap` is the objects
it has, and a pointer is `NULL` or the number of one.  An argument that is a document
is a pointer too, so it may be one that is not finished.

An append call either fails and leaves everything as it was, or it writes one whole
element behind what an open object holds (`BsonAppend.run_cases`).  All that is said
of a run rests on that: its objects are well formed, and those that are finished stay
as they are (`bson_objects_well_formed`).
-/

namespace LibMongo

open Bytes

/-! ## Calls -/

/-- The objects a program has made, by number. -/
abbrev BsonHeap := List Bson

namespace BsonHeap

variable (heap : BsonHeap)

/-- The object behind a pointer. -/
def deref (p : Option Nat) : Option Bson := p.bind fun i => heap[i]?

/-- A call leaves an object. -/
def store (p : Option Nat) (b : Option Bson) : BsonHeap :=
  match p, b with
  | some i, some b => heap.set i b
  | _, _ => heap

end BsonHeap

/-- A call of the `bson_append_*` family with any arguments, without its object and its
key. -/
inductive BsonAppend where
  | double (val : GDouble)
  | string (val : Option Bytes) (length : Int)
  | document (doc : Option Nat)
  | array (array : Option Nat)
  | binary (subtype : UInt8) (data : Option Bytes) (size : Int)
  | oid (oid : Option Oid)
  | boolean (value : BitVec 32)
  | utcDatetime (ts : BitVec 64)
  | null
  | regex (regexp options : Option CString)
  | javascript (js : Option Bytes) (len : Int)
  | symbol (symbol : Option Bytes) (len : Int)
  | javascriptWScope (js : Option Bytes) (len : Int) (scope : Option Nat)
  | int32 (i : BitVec 32)
  | timestamp (ts : BitVec 64)
  | int64 (i : BitVec 64)

/-- A length that is not beyond the buffer, if there is one. -/
def BufferFits (buffer : Option Bytes) (length : Int) : Prop :=
  ∀ bytes, buffer = some bytes → length.toNat ≤ bytes.length

namespace BsonAppend

/-- The call itself. -/
def run (heap : BsonHeap) (b : Option Bson) (name : Option CString) :
    BsonAppend → Bool × Option Bson
  | double val => bsonAppendDouble b name val
  | string val length => bsonAppendString b name val length
  | document doc => bsonAppendDocument b name (heap.deref doc)
  | array a => bsonAppendArray b name (heap.deref a)
  | binary subtype data size => bsonAppendBinary b name subtype data size
  | oid o => bsonAppendOid b name o
  | boolean value => bsonAppendBoolean b name value
  | utcDatetime ts => bsonAppendUtcDatetime b name ts
  | null => bsonAppendNull b name
  | regex regexp options => bsonAppendRegex b name regexp options
  | javascript js len => bsonAppendJavascript b name js len
  | symbol s len => bsonAppendSymbol b name s len
  | javascriptWScope js len scope =>
      bsonAppendJavascriptWScope b name js len (heap.deref scope)
  | int32 i => bsonAppendInt32 b name i
  | timestamp ts => bsonAppendTimestamp b name ts
  | int64 i => bsonAppendInt64 b name i

/-- An explicit length is not beyond the buffer. -/
def Fits : BsonAppend → Prop
  | string val length => BufferFits val length
  | binary _ data size => BufferFits data size
  | javascript js len => BufferFits js len
  | symbol s len => BufferFits s len
  | javascriptWScope js len _ => BufferFits js len
  | _ => True

end BsonAppend

/-- A call that makes or changes an object. -/
inductive BsonCall where
  | new
  | newSized (size : Int)
  /-- `bson_new_from_data` on the bytes of an object without the last. -/
  | newFromData (p : Option Nat)
  | append (p : Option Nat) (name : Option CString) (a : BsonAppend)
  | finish (p : Option Nat)
  | reset (p : Option Nat)

namespace BsonCall

/-- The verdict of a call and the objects it leaves. -/
def step (heap : BsonHeap) : BsonCall → Bool × BsonHeap
  | new => (true, heap ++ [bsonNew])
  | newSized size => (true, heap ++ [bsonNewSized size])
  | newFromData p =>
      match bsonNewFromData (bsonData (heap.deref p)) (bsonSize (heap.deref p) - 1) with
      | .ok (some b) => (true, heap ++ [b])
      | _ => (false, heap)
  | append p name a =>
      let (ok, b) := a.run heap (heap.deref p) name
      (ok, heap.store p b)
  | finish p =>
      let (ok, b) := bsonFinish (heap.deref p)
      (ok, heap.store p b)
  | reset p =>
      let (ok, b) := bsonReset (heap.deref p)
      (ok, heap.store p b)

/-- The arguments are in the range of their C types. -/
def Fits : BsonCall → Prop
  | append _ _ a => a.Fits
  | _ => True

end BsonCall

/-- The size of a finished object is a `gint32`. -/
def BsonHeap.Small (heap : BsonHeap) : Prop :=
  ∀ b ∈ heap, b.finished = true → b.data.length < 2147483648

/-- Calls one after the other, with arguments a caller may pass. -/
inductive BsonRun : BsonHeap → List BsonCall → BsonHeap → Prop where
  | nil {heap : BsonHeap} : BsonRun heap [] heap
  | cons {heap heap' : BsonHeap} {call : BsonCall} {calls : List BsonCall} : call.Fits →
      (call.step heap).2.Small → BsonRun (call.step heap).2 calls heap' →
      BsonRun heap (call :: calls) heap'

/-! ## Well-formed objects -/

/-- An open object is a slot for the length and whole elements.  A finished one is the
image of a document: its length, whole elements and a zero. -/
inductive Bson.WellFormed : Bson → Prop where
  | opened {slot : Bytes} (d : Doc) : slot.length = 4 → WellFormed ⟨slot ++ d.elems, false⟩
  | finished (d : Doc) : WellFormed ⟨d.encode, true⟩

/-! ## One append call -/

section Append

variable {b : Option Bson} {name : Option CString}

/-- An append call either leaves the object alone, or appends a whole element to an
open object. -/
inductive Appends (b : Option Bson) (name : Option CString) : Bool × Option Bson → Prop where
  | fails : Appends b name (false, b)
  | writes (data : Bytes) (key : CString) (v : Value) : b = some ⟨data, false⟩ →
      name = some key → Appends b name (true, some ⟨data ++ element key v, false⟩)

/-- The part all append calls share. -/
theorem Appends.element {type : BsonType} {payload : Bytes} (v : Value) (htype : v.type = type)
    (hpayload : v.encode = payload) :
    Appends b name (bsonAppendElement b type name payload) := by
  subst htype hpayload
  cases b with
  | none => exact .fails
  | some b =>
      obtain ⟨data, finished⟩ := b
      cases name with
      | none => exact .fails
      | some key =>
          cases finished with
          | true => exact .fails
          | false =>
              rw [bsonAppendElement_open]
              exact .writes data key v rfl rfl

theorem Appends.string {type : BsonType} {val : Option Bytes} {length : Int}
    (make : Bytes → Value) (htype : ∀ s, (make s).type = type)
    (hencode : ∀ s, (make s).encode = textImage s)
    (hfits : BufferFits val length) :
    Appends b name (bsonAppendStringElement b type name val length) := by
  cases val with
  | none => exact .fails
  | some val =>
      rw [bsonAppendStringElement]
      split
      · exact .fails
      · exact .element (make (textContent val length)) (htype _)
          ((hencode _).trans (textBytes_eq (hfits val rfl)).symm)

/-- A document is appended as it is. -/
theorem Appends.document {type : BsonType} {doc : Option Bson} (make : Doc → Value)
    (htype : ∀ d, (make d).type = type) (hencode : ∀ d, (make d).encode = frame d.elems)
    (hdoc : ∀ b, doc = some b → b.WellFormed) :
    Appends b name (bsonAppendDocumentElement b type name doc) := by
  rw [bsonAppendDocumentElement]
  split
  · exact .fails
  · next hsize =>
      cases doc with
      | none => exact absurd (show bsonSize none < 0 by decide) hsize
      | some sub =>
          cases hdoc sub rfl with
          | opened d _ => exact absurd (show (-1 : Int) < 0 by decide) hsize
          | finished d => exact .element (make d) (htype d) (hencode d)

theorem Appends.javascriptWScope {js : Option Bytes} {len : Int} {scope : Option Bson}
    (hfits : BufferFits js len)
    (hscope : ∀ b, scope = some b → b.WellFormed) :
    Appends b name (bsonAppendJavascriptWScope b name js len scope) := by
  cases js with
  | none => exact .fails
  | some js =>
      cases scope with
      | none => exact .fails
      | some sub =>
          rw [bsonAppendJavascriptWScope]
          split
          · exact .fails
          · next hbad =>
              cases hscope sub rfl with
              | opened d _ => exact absurd (.inl (show (-1 : Int) < 0 by decide)) hbad
              | finished d =>
                  refine .element (.jsCodeWScope (textContent js len) d) rfl ?_
                  rw [Value.encode]
                  exact (scopeBytes_eq (hfits js rfl)).symm

/-- What an append call does. -/
theorem BsonAppend.run_cases {heap : BsonHeap} (hheap : ∀ b ∈ heap, b.WellFormed)
    (a : BsonAppend) (hfits : a.Fits) : Appends b name (a.run heap b name) := by
  have hderef : ∀ p sub, heap.deref p = some sub → sub.WellFormed := by
    intro p sub h
    obtain ⟨i, -, hi⟩ := Option.bind_eq_some_iff.mp h
    exact hheap sub (List.mem_of_getElem? hi)
  cases a with
  | double val => exact .element (.double val) rfl (by rw [Value.encode])
  | string val length => exact .string .string (fun _ => rfl) (fun _ => by rw [Value.encode]) hfits
  | document doc =>
      exact .document .document (fun _ => rfl) (fun _ => by rw [Value.encode]) (hderef doc)
  | array array =>
      exact .document .array (fun _ => rfl) (fun _ => by rw [Value.encode]) (hderef array)
  | binary subtype data size =>
      cases data with
      | none => exact .fails
      | some data =>
          rw [run, bsonAppendBinary]
          split
          · exact .fails
          · refine .element (.binary subtype (data.take size.toNat)) rfl ?_
            rw [Value.encode, List.length_take, Nat.min_eq_left (hfits data rfl), List.append_assoc]
            rfl
  | oid oid =>
      cases oid with
      | none => exact .fails
      | some oid => exact .element (.oid oid) rfl (by rw [Value.encode])
  | boolean value => exact .element (.boolean _) rfl (by rw [Value.encode])
  | utcDatetime ts => exact .element (.utcDatetime ts) rfl (by rw [Value.encode])
  | null =>
      have hnull : bsonAppendNull b name = bsonAppendElement b .null name [] := by
        rw [bsonAppendNull, bsonAppendElement]
        cases bsonAppendElementHeader b .null name with
        | mk ok b =>
            cases b with
            | none => cases ok <;> rfl
            | some b => cases ok <;> simp [gByteArrayAppend]
      rw [run, hnull]
      exact .element .null rfl (by rw [Value.encode])
  | regex regexp options =>
      cases regexp with
      | none => exact .fails
      | some regexp =>
          cases options with
          | none => exact .fails
          | some options => exact .element (.regexp regexp options) rfl (by rw [Value.encode])
  | javascript js len => exact .string .jsCode (fun _ => rfl) (fun _ => by rw [Value.encode]) hfits
  | symbol symbol len => exact .string .symbol (fun _ => rfl) (fun _ => by rw [Value.encode]) hfits
  | javascriptWScope js len scope => exact .javascriptWScope hfits (hderef scope)
  | int32 i => exact .element (.int32 i) rfl (by rw [Value.encode])
  | timestamp ts => exact .element (.timestamp ts) rfl (by rw [Value.encode])
  | int64 i => exact .element (.int64 i) rfl (by rw [Value.encode])

end Append

/-! ## One call -/

section Step

variable {heap : BsonHeap}

theorem BsonHeap.mem_store {p : Option Nat} {b : Option Bson} {x : Bson}
    (h : x ∈ heap.store p b) : x ∈ heap ∨ b = some x := by
  cases p with
  | none => exact .inl h
  | some i =>
      cases b with
      | none => exact .inl h
      | some b =>
          rcases List.mem_or_eq_of_mem_set h with hx | hx
          · exact .inl hx
          · exact .inr (by rw [hx])

/-- Leaving an object as it was leaves all of them. -/
theorem BsonHeap.store_deref (p : Option Nat) : heap.store p (heap.deref p) = heap := by
  cases p with
  | none => rfl
  | some i =>
      rw [deref, Option.bind_some]
      cases h : heap[i]? with
      | none => rfl
      | some b =>
          obtain ⟨hi, hget⟩ := List.getElem?_eq_some_iff.mp h
          rw [store, ← hget]
          exact List.set_getElem_self hi

/-- The other objects are not touched. -/
theorem BsonHeap.getElem?_store {p : Option Nat} {i : Nat} (b : Option Bson) (h : p ≠ some i) :
    (heap.store p b)[i]? = heap[i]? := by
  cases p with
  | none => rfl
  | some j =>
      cases b with
      | none => rfl
      | some b => exact List.getElem?_set_ne (fun hij => h (by rw [hij]))

theorem BsonCall.step_append (p : Option Nat) (name : Option CString) (a : BsonAppend) :
    (BsonCall.append p name a).step heap
      = ((a.run heap (heap.deref p) name).1, heap.store p (a.run heap (heap.deref p) name).2) :=
  rfl

theorem bsonFinish_wellFormed {b b' : Bson} (h : b.WellFormed)
    (hfinish : (bsonFinish (some b)).2 = some b') : b'.WellFormed := by
  cases h with
  | opened d hslot =>
      rw [bsonFinish_open hslot] at hfinish
      cases hfinish
      exact .finished d
  | finished d =>
      cases hfinish
      exact .finished d

/-- A copy of a finished object without its terminator is open again. -/
theorem bsonNewFromData_wellFormed {b b' : Bson} (h : b.WellFormed)
    (hsmall : b.finished = true → b.data.length < 2147483648)
    (hnew : bsonNewFromData (bsonData (some b)) (bsonSize (some b) - 1) = .ok (some b')) :
    b'.WellFormed := by
  cases h with
  | opened d _ => cases hnew
  | finished d =>
      have hlen : d.encode.length = 4 + d.elems.length + 1 := by
        rw [Doc.encode_length]
        omega
      have hsplit : d.encode = (leBytes 4 (d.elems.length + 5) ++ d.elems) ++ [0] := by
        rw [Doc.encode, frame, List.append_assoc]
      have hfront : (leBytes 4 (d.elems.length + 5) ++ d.elems).length = 4 + d.elems.length := by
        rw [List.length_append, leBytes_length]
      have hload := load_append (leBytes 4 (d.elems.length + 5) ++ d.elems) [0]
      rw [hfront] at hload
      have hsize : ((d.encode.length : Int) - 1).toNat = 4 + d.elems.length := by omega
      have hpos : ¬ ((d.encode.length : Int) - 1 ≤ 0) := by omega
      have hopen : bsonNewFromData (bsonData (some ⟨d.encode, true⟩))
          (bsonSize (some ⟨d.encode, true⟩) - 1)
            = .ok (some ⟨leBytes 4 (d.elems.length + 5) ++ d.elems, false⟩) := by
        rw [bsonData_finished rfl, bsonSize_finished rfl (hsmall rfl), bsonNewFromData,
          if_neg hpos, hsize, hsplit, hload]
        rfl
      cases hopen.symm.trans hnew
      exact .opened d (leBytes_length 4 _)

theorem BsonCall.step_wellFormed (call : BsonCall) (hfits : call.Fits) (hsmall : heap.Small)
    (hheap : ∀ b ∈ heap, b.WellFormed) : ∀ b ∈ (call.step heap).2, b.WellFormed := by
  -- the objects that were there, and one that the call makes or leaves
  have hadded : ∀ {x : Bson}, x.WellFormed → ∀ b ∈ heap ++ [x], b.WellFormed := by
    intro x hx b hb
    rcases List.mem_append.mp hb with hb | hb
    · exact hheap b hb
    · rw [List.mem_singleton] at hb
      rw [hb]
      exact hx
  have hstored : ∀ {p : Option Nat} {x : Option Bson}, (∀ b, x = some b → b.WellFormed) →
      ∀ b ∈ heap.store p x, b.WellFormed := by
    intro p x hx b hb
    rcases BsonHeap.mem_store hb with hb | hb
    · exact hheap b hb
    · exact hx b hb
  have hderef : ∀ p sub, heap.deref p = some sub → sub ∈ heap := by
    intro p sub h
    obtain ⟨i, -, hi⟩ := Option.bind_eq_some_iff.mp h
    exact List.mem_of_getElem? hi
  cases call with
  | new => exact hadded (.opened .nil (leBytes_length 4 0))
  | newSized size => exact hadded (.opened .nil (leBytes_length 4 0))
  | newFromData p =>
      rw [step]
      split
      · next x hnew =>
          refine hadded ?_
          cases hp : heap.deref p with
          | none =>
              rw [hp] at hnew
              cases hnew
          | some b =>
              rw [hp] at hnew
              exact bsonNewFromData_wellFormed (hheap b (hderef p b hp))
                (hsmall b (hderef p b hp)) hnew
      · exact hheap
  | append p name a =>
      rw [step_append]
      refine hstored fun b hb => ?_
      have hcases := @BsonAppend.run_cases (heap.deref p) name heap hheap a hfits
      cases hrun : a.run heap (heap.deref p) name with
      | mk ok x =>
          rw [hrun] at hcases hb
          cases hcases with
          | fails => exact hheap b (hderef p b hb)
          | writes data key v hopen _ =>
              cases hb
              have hwf := hheap _ (hderef p _ hopen)
              cases hwf with
              | opened d hslot =>
                  have helems : (d.append (.cons key v .nil)).elems = d.elems ++ element key v := by
                    rw [Doc.elems_append, Doc.elems_cons, Doc.elems_nil, List.append_nil]
                  rw [List.append_assoc, ← helems]
                  exact .opened _ hslot
  | finish p =>
      refine hstored fun b hb => ?_
      cases hp : heap.deref p with
      | none =>
          rw [hp] at hb
          cases hb
      | some x =>
          rw [hp] at hb
          exact bsonFinish_wellFormed (hheap x (hderef p x hp)) hb
  | reset p =>
      refine hstored fun b hb => ?_
      cases hp : heap.deref p with
      | none =>
          rw [hp] at hb
          cases hb
      | some x =>
          rw [hp] at hb
          cases hb
          exact .opened .nil (leBytes_length 4 0)

/-- What an append call that fails leaves. -/
theorem BsonCall.append_false {p : Option Nat} {name : Option CString} {a : BsonAppend}
    (hheap : ∀ b ∈ heap, b.WellFormed) (hfits : a.Fits)
    (hfalse : ((BsonCall.append p name a).step heap).1 = false) :
    ((BsonCall.append p name a).step heap).2 = heap := by
  have hcases := @BsonAppend.run_cases (heap.deref p) name heap hheap a hfits
  rw [step_append] at hfalse ⊢
  cases hrun : a.run heap (heap.deref p) name with
  | mk ok x =>
      rw [hrun] at hcases hfalse
      cases hcases with
      | fails => exact BsonHeap.store_deref p
      | writes data key v _ _ => cases hfalse

/-- An object that is finished stays as it is until it is reset. -/
theorem BsonCall.step_frozen (call : BsonCall) (hfits : call.Fits)
    (hheap : ∀ b ∈ heap, b.WellFormed) {i : Nat} {b : Bson} (hb : heap[i]? = some b)
    (hfin : b.finished = true) (hreset : call ≠ .reset (some i)) :
    (call.step heap).2[i]? = some b := by
  have hadded : ∀ x : Bson, (heap ++ [x])[i]? = some b := by
    intro x
    obtain ⟨hi, -⟩ := List.getElem?_eq_some_iff.mp hb
    rw [List.getElem?_append_left hi]
    exact hb
  have hstored : ∀ {p : Option Nat} {x : Option Bson}, (p = some i → x = some b) →
      (heap.store p x)[i]? = some b := by
    intro p x hx
    by_cases hp : p = some i
    · have hsame : heap.deref p = some b := by rw [hp]; exact hb
      have hback := @BsonHeap.store_deref heap p
      rw [hsame] at hback
      rw [hx hp, hback]
      exact hb
    · rw [BsonHeap.getElem?_store x hp]
      exact hb
  have hderef : ∀ p, p = some i → heap.deref p = some b := by
    intro p hp
    rw [hp]
    exact hb
  cases call with
  | new => exact hadded _
  | newSized size => exact hadded _
  | newFromData p =>
      rw [step]
      split
      · exact hadded _
      · exact hb
  | append p name a =>
      rw [step_append]
      refine hstored fun hp => ?_
      have hcases := @BsonAppend.run_cases (heap.deref p) name heap hheap a hfits
      rw [hderef p hp] at hcases ⊢
      cases hrun : a.run heap (some b) name with
      | mk ok x =>
          rw [hrun] at hcases
          cases hcases with
          | fails => rfl
          | writes data key v hopen _ =>
              cases hopen
              cases hfin
  | finish p =>
      refine hstored fun hp => ?_
      rw [hderef p hp]
      obtain ⟨data, finished⟩ := b
      cases hfin
      rfl
  | reset p => exact hstored fun hp => absurd (by rw [hp]) hreset

end Step

/-! ## Runs -/

theorem BsonRun.wellFormed {heap heap' : BsonHeap} {calls : List BsonCall}
    (h : BsonRun heap calls heap') (hsmall : heap.Small) (hheap : ∀ b ∈ heap, b.WellFormed) :
    heap'.Small ∧ ∀ b ∈ heap', b.WellFormed := by
  induction h with
  | nil => exact ⟨hsmall, hheap⟩
  | cons hfits hsmall' _ ih => exact ih hsmall' (BsonCall.step_wellFormed _ hfits hsmall hheap)

theorem BsonRun.frozen {heap heap' : BsonHeap} {calls : List BsonCall}
    (h : BsonRun heap calls heap') (hsmall : heap.Small) (hheap : ∀ b ∈ heap, b.WellFormed)
    {i : Nat} {b : Bson} (hb : heap[i]? = some b) (hfin : b.finished = true)
    (hreset : .reset (some i) ∉ calls) : heap'[i]? = some b := by
  induction h with
  | nil => exact hb
  | cons hfits hsmall' _ ih =>
      rw [List.mem_cons, not_or] at hreset
      exact ih hsmall' (BsonCall.step_wellFormed _ hfits hsmall hheap)
        (BsonCall.step_frozen _ hfits hheap hb hfin (Ne.symm hreset.1)) hreset.2

/-- After any calls every object is well formed.  An append call that fails then changes
nothing, and an object that is finished keeps its bytes through all calls that follow,
until it is reset. -/
theorem bson_objects_well_formed {calls : List BsonCall} {heap : BsonHeap}
    (h : BsonRun [] calls heap) :
    (∀ b ∈ heap, b.WellFormed) ∧
    (∀ p name a, BsonAppend.Fits a → ((BsonCall.append p name a).step heap).1 = false →
      ((BsonCall.append p name a).step heap).2 = heap) ∧
    (∀ calls' heap' i b, BsonRun heap calls' heap' → heap[i]? = some b → b.finished = true →
      .reset (some i) ∉ calls' → heap'[i]? = some b) := by
  obtain ⟨hsmall, hheap⟩ := h.wellFormed (fun b hb => by cases hb) (fun b hb => by cases hb)
  refine ⟨hheap, fun p name a hfits hfalse => BsonCall.append_false hheap hfits hfalse, ?_⟩
  intro calls' heap' i b h' hb hfin hreset
  exact h'.frozen hsmall hheap hb hfin hreset

/-- An object with a null, finished, and a second one that holds it. -/
def nestedCalls : List BsonCall :=
  [.new, .append (some 0) (some (.ascii ['a'])) .null, .finish (some 0), .new,
    .append (some 1) (some (.ascii ['b'])) (.document (some 0)), .append (some 1) none .null]

/-- The objects after the calls. -/
def nestedHeap : BsonHeap := nestedCalls.foldl (fun heap call => (call.step heap).2) []

instance (heap : BsonHeap) : Decidable heap.Small :=
  inferInstanceAs (Decidable (∀ b ∈ heap, b.finished = true → b.data.length < 2147483648))

theorem bson_objects_well_formed_nested :
    nestedHeap.length = 2 ∧ ∀ b ∈ nestedHeap, b.WellFormed := by
  have hrun : BsonRun [] nestedCalls nestedHeap := by
    refine .cons trivial (by decide) (.cons trivial (by decide) (.cons trivial (by decide) ?_))
    exact .cons trivial (by decide) (.cons trivial (by decide) (.cons trivial (by decide) .nil))
  exact ⟨by decide, (bson_objects_well_formed hrun).1⟩

end LibMongo
