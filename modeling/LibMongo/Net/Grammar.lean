import LibMongo.Net.Address

/-!
# The grammar of addresses

An address is `HOST`, `HOST:PORT`, `[HOST]` or `[HOST]:PORT`, which is what `AddrForm` says.
`mongo_util_parse_addr` takes more than these.  `strtol` skips blanks, takes a plus sign, sees no
difference between `-1` and `-01` and makes a zero of an empty text, and no one looks at the
character after a bracket.  `LoosePort` has the texts that only `strtol` takes for a port, and
`Strict` the addresses on which the parser follows the grammar (`parseAddr_grammar_iff`).

The other direction is `mongoUtilParseAddr_formatAddr`: a host and a port that were written into a
seed are what the parser finds there.
-/

namespace LibMongo

open Bytes

/-! ## What `strtol` reads -/

/-- The sign of a number as it may be written. -/
inductive Sign where
  | unsigned
  | plus
  | minus
deriving DecidableEq

namespace Sign

/-- How the sign is written. -/
def text : Sign → Bytes
  | unsigned => []
  | plus => [43]
  | minus => [45]

/-- The number with the sign. -/
def apply : Sign → Nat → Int
  | minus, n => -n
  | _, n => n

end Sign

/-- A text of digits only. -/
structure Digits (t : Bytes) : Prop where
  nonempty : t ≠ []
  digit : ∀ d ∈ t, isDigit d = true

/-- The texts that `strtol` reads to their end, and what they denote. -/
inductive Numeral : Bytes → Int → Prop
  | mk {blanks digits : Bytes} (sign : Sign) :
      (∀ b ∈ blanks, isSpace b = true) → Digits digits →
      Numeral (blanks ++ (sign.text ++ digits)) (sign.apply (digitsValue digits))

/-- A digit is no sign and no blank. -/
theorem isDigit_plain {d : UInt8} (h : isDigit d = true) :
    d ≠ 43 ∧ d ≠ 45 ∧ isSpace d = false := by
  simp only [isDigit, Bool.and_eq_true, decide_eq_true_eq, UInt8.le_iff_toNat_le] at h
  obtain ⟨hlo, hhi⟩ := h
  have hlo : 48 ≤ d.toNat := hlo
  have hhi : d.toNat ≤ 57 := hhi
  refine ⟨?_, ?_, ?_⟩
  · rintro rfl
    simp at hlo
  · rintro rfl
    simp at hlo
  · have h32 : d ≠ 32 := by
      rintro rfl
      simp at hlo
    have h13 : ¬ d ≤ 13 := by
      rw [UInt8.le_iff_toNat_le]
      simp only [UInt8.reduceToNat]
      omega
    simp [isSpace, h32, h13]

theorem Digits.takeWhile {t : Bytes} (h : Digits t) : t.takeWhile isDigit = t :=
  List.takeWhile_eq_self_iff.mpr h.digit

theorem Digits.dropWhile {t : Bytes} (h : Digits t) : t.dropWhile isDigit = [] :=
  List.dropWhile_eq_nil_iff.mpr h.digit

theorem splitSign_text {sign : Sign} {digits : Bytes} (h : Digits digits) :
    splitSign (sign.text ++ digits) = (sign == .minus, digits) := by
  cases sign with
  | plus => rfl
  | minus => rfl
  | unsigned =>
      cases digits with
      | nil => exact absurd rfl h.nonempty
      | cons d ds =>
          obtain ⟨hplus, hminus, -⟩ := isDigit_plain (h.digit d (by simp))
          simp only [Sign.text, List.nil_append]
          unfold splitSign
          split
          next heq =>
            cases heq
            exact absurd rfl hminus
          next heq =>
            cases heq
            exact absurd rfl hplus
          next => rfl

/-- A sign or a digit ends the blanks. -/
theorem dropWhile_isSpace {blanks digits : Bytes} {sign : Sign}
    (hblanks : ∀ b ∈ blanks, isSpace b = true) (h : Digits digits) :
    (blanks ++ (sign.text ++ digits)).dropWhile isSpace = sign.text ++ digits := by
  rw [List.dropWhile_append_of_pos hblanks]
  cases sign with
  | plus => rfl
  | minus => rfl
  | unsigned =>
      cases digits with
      | nil => rfl
      | cons d ds =>
          have hd := (isDigit_plain (h.digit d (by simp))).2.2
          simp [Sign.text, hd]

theorem Numeral.strtol {t : Bytes} {i : Int} (h : Numeral t i) :
    strtol t = (max (-9223372036854775808) (min i 9223372036854775807), []) := by
  cases h with
  | mk sign hblanks hdigits =>
      unfold LibMongo.strtol
      rw [dropWhile_isSpace hblanks hdigits, splitSign_text hdigits]
      simp only [hdigits.takeWhile, hdigits.dropWhile, if_neg hdigits.nonempty]
      cases sign <;> rfl

/-- The sign in front of a text, and the text without it. -/
theorem splitSign_eq (s : Bytes) :
    ∃ sign : Sign, s = sign.text ++ (splitSign s).2 ∧ (splitSign s).1 = (sign == .minus) := by
  unfold splitSign
  split
  next rest => exact ⟨.minus, rfl, rfl⟩
  next rest => exact ⟨.plus, rfl, rfl⟩
  next => exact ⟨.unsigned, rfl, rfl⟩

/-- Nothing but the empty text and numerals is read to its end. -/
theorem strtol_exhausts {t : Bytes} (h : (strtol t).2 = []) :
    (t = [] ∧ strtol t = (0, [])) ∨ ∃ i, Numeral t i := by
  obtain ⟨sign, htext, hsign⟩ := splitSign_eq (t.dropWhile isSpace)
  unfold strtol at h
  simp only at h
  split at h
  next hnone =>
    left
    dsimp only at h
    subst h
    exact ⟨rfl, rfl⟩
  next hsome =>
    right
    have hdigits : Digits (splitSign (t.dropWhile isSpace)).2 := by
      constructor
      · intro hnil
        rw [hnil] at hsome
        exact hsome rfl
      · exact List.dropWhile_eq_nil_iff.mp h
    have hblanks : ∀ b ∈ t.takeWhile isSpace, isSpace b = true := by
      intro b hb
      exact List.mem_takeWhile_imp hb
    have hwhole : t = t.takeWhile isSpace ++ (sign.text ++ (splitSign (t.dropWhile isSpace)).2) := by
      rw [← htext, List.takeWhile_append_dropWhile]
    have hnumeral := Numeral.mk sign hblanks hdigits
    rw [← hwhole] at hnumeral
    exact ⟨_, hnumeral⟩

/-! ## Ports -/

/-- The ports a connection can have. -/
def PortRange (p : Int) : Prop := p = -1 ∨ 0 ≤ p ∧ p ≤ 2147483647

instance (p : Int) : Decidable (PortRange p) := inferInstanceAs (Decidable (_ ∨ _))

/-- The parser takes an empty text for port 0, and every numeral in the range. -/
theorem parsePort_ok_iff {host h : CString} {t : Bytes} {p : Int} :
    parsePort host t = .ok (h, p) ↔
      h = host ∧ (t = [] ∧ p = 0 ∨ Numeral t p ∧ PortRange p) := by
  constructor
  · intro hok
    unfold parsePort at hok
    simp only at hok
    split at hok
    next => cases hok
    next hlong =>
      split at hok
      next => cases hok
      next hrange =>
        split at hok
        next => cases hok
        next hend =>
          simp only [Except.ok.injEq, Prod.mk.injEq] at hok
          obtain ⟨rfl, hp⟩ := hok
          refine ⟨rfl, ?_⟩
          rcases strtol_exhausts (not_not.mp hend) with ⟨hnil, hzero⟩ | ⟨i, hi⟩
          · rw [hzero] at hp
            exact .inl ⟨hnil, hp.symm⟩
          · right
            rw [hi.strtol] at hlong hrange hp
            simp only [mongoConnLocal] at hlong hrange hp
            have heq : i = p := by omega
            subst heq
            refine ⟨hi, ?_⟩
            unfold PortRange
            omega
  · rintro ⟨rfl, ⟨rfl, rfl⟩ | ⟨hp, hrange⟩⟩
    · rfl
    · have hval : max (-9223372036854775808) (min p 9223372036854775807) = p := by
        unfold PortRange at hrange
        omega
      unfold parsePort
      rw [hp.strtol, hval]
      unfold PortRange at hrange
      have hlong : ¬ (p = -9223372036854775808 ∨ p = 9223372036854775807) := by omega
      have hlocal : ¬ (p ≠ mongoConnLocal ∧ (p < 0 ∨ 2147483647 < p)) := by
        unfold mongoConnLocal
        omega
      simp [hlong, hlocal]

/-- A port as the grammar has it. -/
inductive PortText : Bytes → Int → Prop
  | unset : PortText [45, 49] (-1)
  | digits {t : Bytes} : Digits t → digitsValue t ≤ 2147483647 → PortText t (digitsValue t)

/-- What else `strtol` makes a port of: nothing at all, a number with blanks in front of it, one
with a plus sign, and zero and one with a minus sign. -/
inductive LoosePort : Bytes → Prop
  | empty : LoosePort []
  | blank {b : UInt8} {t : Bytes} {p : Int} :
      isSpace b = true → Numeral t p → PortRange p → LoosePort (b :: t)
  | plus {t : Bytes} : Digits t → digitsValue t ≤ 2147483647 → LoosePort (43 :: t)
  | minus {t : Bytes} : Digits t → digitsValue t ≤ 1 → t ≠ [49] → LoosePort (45 :: t)

theorem Digits.numeral {t : Bytes} (h : Digits t) (sign : Sign) :
    Numeral (sign.text ++ t) (sign.apply (digitsValue t)) :=
  @Numeral.mk [] t sign (by simp) h

theorem PortText.numeral {t : Bytes} {p : Int} (h : PortText t p) : Numeral t p ∧ PortRange p := by
  cases h with
  | unset => exact ⟨Digits.numeral ⟨by simp, by simp [isDigit]⟩ .minus, by decide⟩
  | digits hdigits hle =>
      refine ⟨hdigits.numeral .unsigned, ?_⟩
      unfold PortRange
      omega

theorem Numeral.blank {b : UInt8} {t : Bytes} {p : Int} (hb : isSpace b = true)
    (h : Numeral t p) : Numeral (b :: t) p := by
  cases h with
  | @mk blanks digits sign hblanks hdigits =>
      have hall : ∀ c ∈ b :: blanks, isSpace c = true := by
        simp only [List.mem_cons, forall_eq_or_imp]
        exact ⟨hb, hblanks⟩
      exact .mk sign hall hdigits

/-- A loose text is a port to the parser. -/
theorem LoosePort.accepted {t : Bytes} (h : LoosePort t) (host : CString) :
    ∃ p, parsePort host t = .ok (host, p) := by
  cases h with
  | empty => exact ⟨0, rfl⟩
  | blank hb hnum hrange => exact ⟨_, parsePort_ok_iff.mpr ⟨rfl, .inr ⟨hnum.blank hb, hrange⟩⟩⟩
  | plus hdigits hle =>
      refine ⟨_, parsePort_ok_iff.mpr ⟨rfl, .inr ⟨hdigits.numeral .plus, ?_⟩⟩⟩
      simp only [PortRange, Sign.apply]
      omega
  | minus hdigits hle =>
      refine ⟨_, parsePort_ok_iff.mpr ⟨rfl, .inr ⟨hdigits.numeral .minus, ?_⟩⟩⟩
      simp only [PortRange, Sign.apply]
      omega

theorem PortText.plain {t : Bytes} {p : Int} (h : PortText t p) :
    t = [45, 49] ∨ Digits t := by
  cases h with
  | unset => exact .inl rfl
  | digits hdigits => exact .inr hdigits

/-- No text is loose and a port of the grammar. -/
theorem LoosePort.not_portText {t : Bytes} (h : LoosePort t) (p : Int) : ¬ PortText t p := by
  intro hport
  cases h with
  | empty =>
      rcases hport.plain with hunset | hdigits
      · cases hunset
      · exact hdigits.nonempty rfl
  | blank hb _ _ =>
      rcases hport.plain with hunset | hdigits
      · cases hunset
        cases hb
      · rw [(isDigit_plain (hdigits.digit _ (by simp))).2.2] at hb
        cases hb
  | plus _ _ =>
      rcases hport.plain with hunset | hdigits
      · cases hunset
      · exact (isDigit_plain (hdigits.digit _ (by simp))).1 rfl
  | minus _ _ hne =>
      rcases hport.plain with hunset | hdigits
      · cases hunset
        exact hne rfl
      · exact (isDigit_plain (hdigits.digit _ (by simp))).2.1 rfl

/-- What the parser takes for a port is one of the grammar or loose. -/
theorem parsePort_cases {host h : CString} {t : Bytes} {p : Int}
    (hok : parsePort host t = .ok (h, p)) : h = host ∧ (PortText t p ∨ LoosePort t) := by
  obtain ⟨rfl, ⟨rfl, -⟩ | ⟨hnum, hrange⟩⟩ := parsePort_ok_iff.mp hok
  · exact ⟨rfl, .inr .empty⟩
  · refine ⟨rfl, ?_⟩
    cases hnum with
    | @mk blanks digits sign hblanks hdigits =>
        cases blanks with
        | cons b blanks =>
            right
            refine .blank (hblanks b (by simp)) (Numeral.mk sign ?_ hdigits) hrange
            intro c hc
            exact hblanks c (by simp [hc])
        | nil =>
            simp only [PortRange] at hrange
            cases sign with
            | unsigned =>
                simp only [Sign.apply] at hrange
                have hle : digitsValue digits ≤ 2147483647 := by omega
                exact .inl (.digits hdigits hle)
            | plus =>
                simp only [Sign.apply] at hrange
                have hle : digitsValue digits ≤ 2147483647 := by omega
                exact .inr (.plus hdigits hle)
            | minus =>
                simp only [Sign.apply] at hrange
                have hle : digitsValue digits ≤ 1 := by omega
                by_cases hone : digits = [49]
                · subst hone
                  exact .inl .unset
                · exact .inr (.minus hdigits hle hone)

/-! ## Where an address is split -/

theorem findIdx_append_cons {b : UInt8} {h : Bytes} (hb : b ∉ h) (t : Bytes) :
    (h ++ b :: t).findIdx? (· == b) = some h.length := by
  induction h with
  | nil => simp [List.findIdx?_cons]
  | cons c h ih =>
      simp only [List.mem_cons, not_or] at hb
      have hne : (c == b) = false := by simpa using Ne.symm hb.1
      simp [List.findIdx?_cons, hne, ih hb.2]

/-- A string is cut at the first of a byte in one way only. -/
theorem first_unique {b : UInt8} {h h' t t' : Bytes} (hh : b ∉ h) (hh' : b ∉ h')
    (heq : h ++ b :: t = h' ++ b :: t') : h = h' ∧ t = t' := by
  have hfind := congrArg (List.findIdx? (· == b)) heq
  rw [findIdx_append_cons hh, findIdx_append_cons hh', Option.some.injEq] at hfind
  obtain ⟨hfront, htail⟩ := List.append_inj heq hfind
  exact ⟨hfront, (List.cons.inj htail).2⟩

theorem last_unique {b : UInt8} {h h' t t' : Bytes} (ht : b ∉ t) (ht' : b ∉ t')
    (heq : h ++ b :: t = h' ++ b :: t') : h = h' ∧ t = t' := by
  have hreverse := congrArg List.reverse heq
  simp only [List.reverse_append, List.reverse_cons, List.append_assoc, List.cons_append,
    List.nil_append] at hreverse
  obtain ⟨htail, hhead⟩ :=
    first_unique (List.mem_reverse.not.mpr ht) (List.mem_reverse.not.mpr ht') hreverse
  exact ⟨List.reverse_injective hhead, List.reverse_injective htail⟩

theorem lastColon_append {h t : Bytes} (ht : (58 : UInt8) ∉ t) :
    lastColon (h ++ 58 :: t) = some h.length := by
  have hreverse : (h ++ 58 :: t).reverse = t.reverse ++ 58 :: h.reverse := by simp
  have hfind := findIdx_append_cons (List.mem_reverse.not.mpr ht) h.reverse
  rw [lastColon, hreverse, hfind]
  simp only [Option.map_some, List.length_append, List.length_reverse, List.length_cons,
    Option.some.injEq]
  omega

theorem lastColon_eq_none {s : Bytes} (hs : (58 : UInt8) ∉ s) : lastColon s = none := by
  have hfind : s.reverse.findIdx? (· == 58) = none := by
    rw [List.findIdx?_eq_none_iff]
    intro b hb
    have hmem : b ∈ s := by simpa using hb
    simp only [beq_eq_false_iff_ne]
    rintro rfl
    exact hs hmem
  rw [lastColon, hfind]
  rfl

/-- How the parser takes a string apart. -/
inductive Split : Bytes → Prop
  /-- There is no colon. -/
  | plain {s : Bytes} : s.head? ≠ some 91 → (58 : UInt8) ∉ s → Split s
  /-- The last colon. -/
  | colon {h t : Bytes} : (h ++ 58 :: t).head? ≠ some 91 → (58 : UInt8) ∉ t → Split (h ++ 58 :: t)
  /-- The bracket is not closed. -/
  | unclosed {s : Bytes} : (93 : UInt8) ∉ s → Split (91 :: s)
  /-- The first closing bracket. -/
  | bracket {h t : Bytes} : (93 : UInt8) ∉ h → Split (91 :: (h ++ 93 :: t))

theorem Split.total (s : Bytes) : Split s := by
  by_cases hbracket : s.head? = some 91
  · cases s with
    | nil => cases hbracket
    | cons b rest =>
        simp only [List.head?_cons, Option.some.injEq] at hbracket
        subst hbracket
        by_cases hclose : (93 : UInt8) ∈ rest
        · obtain ⟨h, t, rfl, hh⟩ := List.eq_append_cons_of_mem hclose
          exact .bracket hh
        · exact .unclosed hclose
  · by_cases hcolon : (58 : UInt8) ∈ s
    · obtain ⟨h, t, heq, hh⟩ := List.eq_append_cons_of_mem (List.mem_reverse.mpr hcolon)
      have hs : s = t.reverse ++ 58 :: h.reverse := by
        rw [← List.reverse_reverse s, heq]
        simp
      subst hs
      exact .colon hbracket (by simpa using hh)
    · exact .plain hbracket hcolon

/-! ## The parser on a split string -/

theorem ofBytes_of_notMem {bs : Bytes} (h : (0 : UInt8) ∉ bs) : CString.ofBytes bs = ⟨bs, h⟩ :=
  CString.ofBytes_bytes ⟨bs, h⟩

theorem bytes_eq_iff {c : CString} {bs : Bytes} (h : (0 : UInt8) ∉ bs) :
    c.bytes = bs ↔ c = ⟨bs, h⟩ :=
  ⟨fun heq => CString.ext_bytes heq, fun heq => heq ▸ rfl⟩

section Parser

variable {addr : CString} {s h t : Bytes}

theorem parse_plain (hs : addr.bytes.head? ≠ some 91) (hcolon : (58 : UInt8) ∉ addr.bytes) :
    mongoUtilParseAddr addr = .ok (addr, -1) := by
  unfold mongoUtilParseAddr
  split
  next rest heq =>
    rw [heq] at hs
    exact absurd rfl hs
  next => rw [lastColon_eq_none hcolon]

theorem parse_colon (heq : addr.bytes = h ++ 58 :: t) (hs : addr.bytes.head? ≠ some 91)
    (ht : (58 : UInt8) ∉ t) :
    mongoUtilParseAddr addr
      = if h = [] then .error .EINVAL else parsePort (CString.ofBytes h) t := by
  unfold mongoUtilParseAddr
  split
  next rest hrest =>
    rw [hrest] at hs
    exact absurd rfl hs
  next =>
    rw [heq, lastColon_append ht]
    cases h with
    | nil => rfl
    | cons b h =>
        simp

theorem parse_unclosed (heq : addr.bytes = 91 :: s) (hs : (93 : UInt8) ∉ s) :
    mongoUtilParseAddr addr = .error .EINVAL := by
  have hfind : s.findIdx? (· == 93) = none := by
    rw [List.findIdx?_eq_none_iff]
    intro b hb
    simp only [beq_eq_false_iff_ne]
    rintro rfl
    exact hs hb
  unfold mongoUtilParseAddr
  rw [heq]
  simp only [hfind]

theorem parse_bracket (heq : addr.bytes = 91 :: (h ++ 93 :: t)) (hh : (93 : UInt8) ∉ h) :
    mongoUtilParseAddr addr
      = if h = [] then .error .EINVAL
        else if t.length ≤ 1 then .ok (CString.ofBytes h, -1)
        else parsePort (CString.ofBytes h) (t.drop 1) := by
  have hlen : addr.length = h.length + t.length + 2 := by
    simp [CString.length, heq]
    omega
  unfold mongoUtilParseAddr
  rw [hlen, heq]
  simp only [findIdx_append_cons hh]
  cases h with
  | nil => rfl
  | cons b h =>
      have hshort : (b :: h).length + t.length + 2 ≤ (b :: h).length + 3 ↔ t.length ≤ 1 := by omega
      simp only [List.length_cons] at hshort
      simp [hshort]

end Parser

/-! ## The outputs of the parser -/

/-- The variables that `host` and `port` point to, and `errno`. -/
structure AddrOut where
  host : Option CString
  port : Int
  errno : Errno
deriving DecidableEq

/-- An error exit. -/
def parseFails (e : Errno) : Bool × AddrOut := (false, { host := none, port := -1, errno := e })

/-- `parsePort` with its stores. -/
def parsePortInto (portS : Bytes) (out : AddrOut) : Bool × AddrOut :=
  let (p, ep) := strtol portS
  if p = -9223372036854775808 ∨ p = 9223372036854775807 then parseFails .ERANGE
  else if p ≠ mongoConnLocal ∧ (p < 0 ∨ 2147483647 < p) then parseFails .ERANGE
  else
    let out := { out with port := p }
    if ep ≠ [] then parseFails .EINVAL else (true, out)

/-- `mongo_util_parse_addr` with its stores. -/
def mongoUtilParseAddrInto (addr : CString) (out : AddrOut) : Bool × AddrOut :=
  match addr.bytes with
  | 91 :: rest =>
      match rest.findIdx? (· == 93) with
      | none => parseFails .EINVAL
      | some 0 => parseFails .EINVAL
      | some i =>
          let out := { out with host := some (CString.ofBytes (rest.take i)) }
          if addr.length ≤ i + 3 then (true, { out with port := -1 })
          else parsePortInto (rest.drop (i + 2)) out
  | s =>
      match lastColon s with
      | none => (true, { out with host := some addr, port := -1 })
      | some 0 => parseFails .EINVAL
      | some i =>
          parsePortInto (s.drop (i + 1)) { out with host := some (CString.ofBytes (s.take i)) }

/-- What is left in the variables by what the parser came to. -/
def AddrOut.report (out : AddrOut) : Except Errno (CString × Int) → Bool × AddrOut
  | .ok (host, port) => (true, { out with host := some host, port := port })
  | .error e => parseFails e

theorem parsePortInto_eq (host : CString) (portS : Bytes) (out : AddrOut) :
    parsePortInto portS { out with host := some host } = out.report (parsePort host portS) := by
  unfold parsePortInto parsePort
  simp only
  split
  next => rfl
  next =>
    split
    next => rfl
    next =>
      split
      next => rfl
      next => rfl

theorem mongoUtilParseAddrInto_eq (addr : CString) (out : AddrOut) :
    mongoUtilParseAddrInto addr out = out.report (mongoUtilParseAddr addr) := by
  unfold mongoUtilParseAddrInto mongoUtilParseAddr
  generalize addr.bytes = s
  split
  next rest =>
    simp only
    rcases rest.findIdx? (· == 93) with - | - | i
    · rfl
    · rfl
    · simp only
      split
      next => rfl
      next => rw [parsePortInto_eq]
  next =>
    rcases Option.eq_none_or_eq_some (lastColon s) with hcolon | ⟨- | i, hcolon⟩
    · simp only [hcolon]
      rfl
    · simp only [hcolon]
      rfl
    · simp only [hcolon]
      exact parsePortInto_eq _ _ out

/-! ## The grammar -/

/-- The addresses of a host and a port. -/
inductive AddrForm : Bytes → Bytes → Int → Prop
  | host {h : Bytes} : h ≠ [] → h.head? ≠ some 91 → (58 : UInt8) ∉ h → AddrForm h h (-1)
  | hostPort {h t : Bytes} {p : Int} : h ≠ [] → h.head? ≠ some 91 → PortText t p →
      AddrForm (h ++ 58 :: t) h p
  | literal {h : Bytes} : h ≠ [] → (93 : UInt8) ∉ h → AddrForm (91 :: (h ++ [93])) h (-1)
  | literalPort {h t : Bytes} {p : Int} : h ≠ [] → (93 : UInt8) ∉ h → PortText t p →
      AddrForm (91 :: (h ++ 93 :: 58 :: t)) h p

theorem PortText.no_colon {t : Bytes} {p : Int} (h : PortText t p) : (58 : UInt8) ∉ t := by
  rcases h.plain with rfl | hdigits
  · decide
  · intro hmem
    have hcolon := hdigits.digit 58 hmem
    simp [isDigit] at hcolon

section Forms

variable {s h t host : Bytes} {p : Int}

theorem addrForm_plain (hs : s.head? ≠ some 91) (hcolon : (58 : UInt8) ∉ s) :
    AddrForm s host p ↔ s ≠ [] ∧ host = s ∧ p = -1 := by
  constructor
  · intro hform
    cases hform with
    | host hne _ _ => exact ⟨hne, rfl, rfl⟩
    | hostPort _ _ _ => exact absurd (by simp) hcolon
    | literal _ _ => exact absurd rfl hs
    | literalPort _ _ _ => exact absurd rfl hs
  · rintro ⟨hne, rfl, rfl⟩
    exact .host hne hs hcolon

theorem addrForm_colon (hs : (h ++ 58 :: t).head? ≠ some 91) (ht : (58 : UInt8) ∉ t) :
    AddrForm (h ++ 58 :: t) host p ↔ h ≠ [] ∧ host = h ∧ PortText t p := by
  constructor
  · intro hform
    generalize hwhole : h ++ 58 :: t = s at hform hs
    cases hform with
    | host _ _ hcolon =>
        subst hwhole
        exact absurd (by simp) hcolon
    | hostPort hne _ hport =>
        obtain ⟨rfl, rfl⟩ := last_unique ht hport.no_colon hwhole
        exact ⟨hne, rfl, hport⟩
    | literal _ _ => exact absurd rfl hs
    | literalPort _ _ _ => exact absurd rfl hs
  · rintro ⟨hne, rfl, hport⟩
    refine .hostPort hne ?_ hport
    rwa [List.head?_append_of_ne_nil _ hne] at hs

theorem addrForm_unclosed (hs : (93 : UInt8) ∉ s) : ¬ AddrForm (91 :: s) host p := by
  intro hform
  generalize hwhole : 91 :: s = whole at hform
  cases hform with
  | host _ hhead _ =>
      subst hwhole
      exact hhead rfl
  | hostPort hne hhead _ =>
      rw [← List.head?_append_of_ne_nil _ hne, ← hwhole] at hhead
      exact hhead rfl
  | literal _ _ =>
      cases hwhole
      simp at hs
  | literalPort _ _ _ =>
      cases hwhole
      simp at hs

theorem addrForm_bracket (hh : (93 : UInt8) ∉ h) :
    AddrForm (91 :: (h ++ 93 :: t)) host p ↔
      h ≠ [] ∧ host = h ∧ (t = [] ∧ p = -1 ∨ ∃ t', t = 58 :: t' ∧ PortText t' p) := by
  constructor
  · intro hform
    generalize hwhole : 91 :: (h ++ 93 :: t) = s at hform
    cases hform with
    | host _ hhead _ =>
        subst hwhole
        exact absurd rfl hhead
    | hostPort hne hhead _ =>
        rw [← List.head?_append_of_ne_nil _ hne, ← hwhole] at hhead
        exact absurd rfl hhead
    | literal hne hhost =>
        obtain ⟨rfl, rfl⟩ := first_unique hh hhost (List.cons.inj hwhole).2
        exact ⟨hne, rfl, .inl ⟨rfl, rfl⟩⟩
    | literalPort hne hhost hport =>
        obtain ⟨rfl, rfl⟩ := first_unique hh hhost (List.cons.inj hwhole).2
        exact ⟨hne, rfl, .inr ⟨_, rfl, hport⟩⟩
  · rintro ⟨hne, rfl, ⟨rfl, rfl⟩ | ⟨t', rfl, hport⟩⟩
    · exact .literal hne hh
    · exact .literalPort hne hh hport

end Forms

/-! ## Where the parser follows the grammar -/

/-- What the parser says of an address is what the grammar says. -/
structure FollowsGrammar (addr : CString) : Prop where
  accepts : ∀ out host port, AddrForm addr.bytes (CString.bytes host) port ↔
    (mongoUtilParseAddrInto addr out).1 = true ∧
    (mongoUtilParseAddrInto addr out).2.host = some host ∧
    (mongoUtilParseAddrInto addr out).2.port = port
  refuses : (∀ host port, ¬ AddrForm addr.bytes host port) → ∀ out,
    (mongoUtilParseAddrInto addr out).1 = false ∧
    (mongoUtilParseAddrInto addr out).2.host = none ∧
    (mongoUtilParseAddrInto addr out).2.port = -1

/-- Addresses that are not empty, have no loose port, and have a colon and something more after
the bracket if they have anything. -/
structure Strict (s : Bytes) : Prop where
  nonempty : s ≠ []
  port : ∀ h t, s = h ++ 58 :: t → (58 : UInt8) ∉ t → h ≠ [] → h.head? ≠ some 91 → ¬ LoosePort t
  bracket : ∀ h c t, s = 91 :: (h ++ 93 :: c :: t) → (93 : UInt8) ∉ h → h ≠ [] →
    ¬ LoosePort t ∧ (c ≠ 58 → ∀ p, ¬ PortText t p)

/-- The outputs left out. -/
theorem followsGrammar_iff (addr : CString) :
    FollowsGrammar addr ↔ ∀ host port,
      AddrForm addr.bytes (CString.bytes host) port ↔ mongoUtilParseAddr addr = .ok (host, port) := by
  have hreport (out : AddrOut) (host : CString) (port : Int) :
      mongoUtilParseAddr addr = .ok (host, port) ↔
        (mongoUtilParseAddrInto addr out).1 = true ∧
        (mongoUtilParseAddrInto addr out).2.host = some host ∧
        (mongoUtilParseAddrInto addr out).2.port = port := by
    rw [mongoUtilParseAddrInto_eq]
    cases mongoUtilParseAddr addr with
    | error e => simp [AddrOut.report, parseFails]
    | ok parsed => simp [AddrOut.report, Prod.ext_iff]
  constructor
  · intro h host port
    rw [h.accepts ⟨none, -1, .EINVAL⟩, hreport]
  · intro h
    constructor
    · intro out host port
      rw [h, hreport out]
    · intro hnone out
      rw [mongoUtilParseAddrInto_eq]
      cases hparse : mongoUtilParseAddr addr with
      | error e => exact ⟨rfl, rfl, rfl⟩
      | ok parsed => exact absurd ((h _ _).mpr hparse) (hnone _ _)

section Shapes

variable {addr : CString} {s h t : Bytes}

theorem strict_plain (hs : s.head? ≠ some 91) (hcolon : (58 : UInt8) ∉ s) :
    Strict s ↔ s ≠ [] := by
  constructor
  · exact Strict.nonempty
  · intro hne
    constructor
    · exact hne
    · rintro h t rfl
      exact absurd (by simp) hcolon
    · rintro h c t rfl
      exact absurd rfl hs

theorem strict_colon (hs : (h ++ 58 :: t).head? ≠ some 91) (ht : (58 : UInt8) ∉ t) :
    Strict (h ++ 58 :: t) ↔ (h ≠ [] → ¬ LoosePort t) := by
  constructor
  · intro hstrict hne
    refine hstrict.port h t rfl ht hne ?_
    rwa [List.head?_append_of_ne_nil _ hne] at hs
  · intro hport
    constructor
    · simp
    · intro h' t' heq ht' hne _
      obtain ⟨rfl, rfl⟩ := last_unique ht ht' heq
      exact hport hne
    · intro h' c t' heq _ _
      rw [heq] at hs
      exact absurd rfl hs

/-- A string that starts with a bracket has no unbracketed port. -/
theorem bracket_no_port (h' t' : Bytes) (heq : 91 :: s = h' ++ 58 :: t') (hne : h' ≠ [])
    (hhead : h'.head? ≠ some 91) : False := by
  rw [← List.head?_append_of_ne_nil _ hne, ← heq] at hhead
  exact hhead rfl

theorem strict_unclosed (hs : (93 : UInt8) ∉ s) : Strict (91 :: s) := by
  constructor
  · simp
  · intro h t heq _ hne hhead
    exact (bracket_no_port h t heq hne hhead).elim
  · intro h c t heq _ _
    cases heq
    simp at hs

theorem strict_bracket (hh : (93 : UInt8) ∉ h) :
    Strict (91 :: (h ++ 93 :: t)) ↔
      (h ≠ [] → ∀ c t', t = c :: t' → ¬ LoosePort t' ∧ (c ≠ 58 → ∀ p, ¬ PortText t' p)) := by
  constructor
  · rintro hstrict hne c t' rfl
    exact hstrict.bracket h c t' rfl hh hne
  · intro hrest
    constructor
    · simp
    · intro h' t' heq _ hne hhead
      exact (bracket_no_port h' t' heq hne hhead).elim
    · intro h' c t' heq hh' hne
      obtain ⟨rfl, rfl⟩ := first_unique hh hh' (List.cons.inj heq).2
      exact hrest hne c t' rfl

/-- The ports of the grammar are those of the parser, unless the text is loose. -/
theorem port_follows {H : CString} :
    (∀ host p, host = H ∧ PortText t p ↔ parsePort H t = .ok (host, p)) ↔ ¬ LoosePort t := by
  constructor
  · intro hiff hloose
    obtain ⟨p, hp⟩ := hloose.accepted H
    exact hloose.not_portText p ((hiff H p).mpr hp).2
  · intro hloose host p
    constructor
    · rintro ⟨rfl, hport⟩
      exact parsePort_ok_iff.mpr ⟨rfl, .inr hport.numeral⟩
    · intro hok
      obtain ⟨rfl, hport | hport⟩ := parsePort_cases hok
      · exact ⟨rfl, hport⟩
      · exact absurd hport hloose

/-- The parser reads no port where there is none of the grammar and no loose one. -/
theorem port_refused_iff {H : CString} :
    (∀ host p, parsePort H t ≠ .ok (host, p)) ↔ ¬ LoosePort t ∧ ∀ p, ¬ PortText t p := by
  constructor
  · intro hnever
    constructor
    · intro hloose
      obtain ⟨p, hp⟩ := hloose.accepted H
      exact hnever H p hp
    · intro p hport
      exact hnever H p (parsePort_ok_iff.mpr ⟨rfl, .inr hport.numeral⟩)
  · rintro ⟨hloose, hport⟩ host p hok
    rcases (parsePort_cases hok).2 with htext | htext
    · exact hport p htext
    · exact hloose htext

theorem follows_plain (hs : addr.bytes.head? ≠ some 91) (hcolon : (58 : UInt8) ∉ addr.bytes) :
    FollowsGrammar addr ↔ addr.bytes ≠ [] := by
  rw [followsGrammar_iff, parse_plain hs hcolon]
  simp only [addrForm_plain hs hcolon, Except.ok.injEq, Prod.mk.injEq]
  constructor
  · intro hiff
    exact ((hiff addr (-1)).mpr ⟨rfl, rfl⟩).1
  · intro hne host port
    constructor
    · rintro ⟨-, hhost, rfl⟩
      exact ⟨(CString.ext_bytes hhost).symm, rfl⟩
    · rintro ⟨rfl, rfl⟩
      exact ⟨hne, rfl, rfl⟩

theorem follows_colon (heq : addr.bytes = h ++ 58 :: t) (hs : addr.bytes.head? ≠ some 91)
    (ht : (58 : UInt8) ∉ t) : FollowsGrammar addr ↔ (h ≠ [] → ¬ LoosePort t) := by
  have hnul : (0 : UInt8) ∉ h := by
    intro hmem
    exact addr.noNul (by simp [heq, hmem])
  rw [followsGrammar_iff, parse_colon heq hs ht, heq]
  rw [heq] at hs
  simp only [addrForm_colon hs ht]
  by_cases hne : h = []
  · simp [hne]
  · simp only [hne, if_false, ne_eq, not_false_eq_true, true_and, forall_const]
    simp only [ofBytes_of_notMem hnul, bytes_eq_iff hnul]
    exact port_follows

theorem follows_unclosed (heq : addr.bytes = 91 :: s) (hs : (93 : UInt8) ∉ s) :
    FollowsGrammar addr := by
  rw [followsGrammar_iff, parse_unclosed heq hs, heq]
  simp [addrForm_unclosed hs]

theorem follows_bracket (heq : addr.bytes = 91 :: (h ++ 93 :: t)) (hh : (93 : UInt8) ∉ h) :
    FollowsGrammar addr ↔
      (h ≠ [] → ∀ c t', t = c :: t' → ¬ LoosePort t' ∧ (c ≠ 58 → ∀ p, ¬ PortText t' p)) := by
  have hnul : (0 : UInt8) ∉ h := by
    intro hmem
    exact addr.noNul (by simp [heq, hmem])
  rw [followsGrammar_iff, parse_bracket heq hh, heq]
  simp only [addrForm_bracket hh, ofBytes_of_notMem hnul, bytes_eq_iff hnul]
  by_cases hne : h = []
  · simp [hne]
  · simp only [hne, if_false, ne_eq, not_false_eq_true, true_and, forall_const]
    cases t with
    | nil =>
        constructor
        · intro _ c t' heq
          cases heq
        · intro _ host p
          constructor
          · rintro ⟨rfl, ⟨-, rfl⟩ | ⟨t', htail, -⟩⟩
            · rfl
            · cases htail
          · intro hok
            cases hok
            exact ⟨rfl, .inl ⟨rfl, rfl⟩⟩
    | cons c t =>
        cases t with
        | nil =>
            -- one character after the bracket, which is skipped
            constructor
            · intro hiff
              obtain ⟨-, ⟨hnil, -⟩ | ⟨t', htail, hport⟩⟩ := (hiff ⟨h, hnul⟩ (-1)).mpr (by simp)
              · cases hnil
              · cases htail
                exact absurd hport (LoosePort.empty.not_portText _)
            · intro hloose
              exact absurd LoosePort.empty (hloose c [] rfl).1
        | cons d t =>
            by_cases hc : c = 58
            · subst hc
              have hport := port_follows (t := d :: t) (H := ⟨h, hnul⟩)
              simpa using hport
            · have hlen : ¬ (c :: d :: t).length ≤ 1 := by simp
              simp only [hlen, if_false, List.drop_succ_cons, List.drop_zero]
              -- another character than a colon is skipped, and no port may be read behind it
              constructor
              · rintro hiff c' t' heq
                cases heq
                have hnever : ∀ host p, parsePort ⟨h, hnul⟩ (d :: t) ≠ .ok (host, p) := by
                  intro host p hok
                  obtain ⟨-, ⟨hnil, -⟩ | ⟨t', htail, -⟩⟩ := (hiff host p).mpr hok
                  · cases hnil
                  · exact hc (List.cons.inj htail).1
                obtain ⟨hloose, hport⟩ := port_refused_iff.mp hnever
                exact ⟨hloose, fun _ => hport⟩
              · intro hrest host p
                obtain ⟨hloose, hport⟩ := hrest c (d :: t) rfl
                constructor
                · rintro ⟨-, ⟨hnil, -⟩ | ⟨t', htail, -⟩⟩
                  · cases hnil
                  · exact absurd (List.cons.inj htail).1 hc
                · intro hok
                  exact absurd hok (port_refused_iff.mpr ⟨hloose, hport hc⟩ host p)

end Shapes

/-- The parser follows the grammar exactly on the strict addresses. -/
theorem parseAddr_grammar_iff (addr : CString) : FollowsGrammar addr ↔ Strict addr.bytes := by
  generalize hbytes : addr.bytes = s
  cases Split.total s with
  | plain hs hcolon =>
      subst hbytes
      rw [follows_plain hs hcolon, strict_plain hs hcolon]
  | colon hs ht => rw [follows_colon hbytes (hbytes ▸ hs) ht, strict_colon hs ht]
  | unclosed hs =>
      exact ⟨fun _ => strict_unclosed hs, fun _ => follows_unclosed hbytes hs⟩
  | bracket hh => rw [follows_bracket hbytes hh, strict_bracket hh]

/-- An address without a port is taken for one with port 0. -/
theorem parseAddr_empty_port : ¬ FollowsGrammar (.ascii ['d', 'b', ':']) := by
  intro hfollows
  have hport := (follows_colon (h := [100, 98]) (t := []) rfl (by decide) (by simp)).mp hfollows
  exact hport (by simp) .empty

/-! ## Seeds -/

theorem digitsValue_append_one (ds : Bytes) (d : UInt8) :
    digitsValue (ds ++ [d]) = 10 * digitsValue ds + (d.toNat - 48) := by
  simp [digitsValue, List.foldl_append]

theorem digit_toNat {n : Nat} (h : n < 10) : (UInt8.ofNat (48 + n)).toNat = 48 + n := by
  simp only [UInt8.toNat_ofNat']
  omega

theorem isDigit_ofNat {n : Nat} (h : n < 10) : isDigit (UInt8.ofNat (48 + n)) = true := by
  simp only [isDigit, Bool.and_eq_true, decide_eq_true_eq, UInt8.le_iff_toNat_le, digit_toNat h,
    UInt8.reduceToNat]
  omega

/-- The digits of a number denote it. -/
theorem decimalDigits_spec {fuel n : Nat} (h : n < fuel) :
    Digits (decimalDigits fuel n) ∧ digitsValue (decimalDigits fuel n) = n := by
  induction fuel generalizing n with
  | zero => omega
  | succ fuel ih =>
      unfold decimalDigits
      split
      next hsmall =>
        constructor
        · exact ⟨by simp, by simpa using isDigit_ofNat hsmall⟩
        · simp only [digitsValue, List.foldl_cons, List.foldl_nil, digit_toNat hsmall]
          omega
      next =>
        have hlast : n % 10 < 10 := by omega
        obtain ⟨hdigits, hvalue⟩ := ih (n := n / 10) (by omega)
        constructor
        · constructor
          · simp
          · intro d hd
            simp only [List.mem_append, List.mem_singleton] at hd
            rcases hd with hd | rfl
            · exact hdigits.digit d hd
            · exact isDigit_ofNat hlast
        · rw [digitsValue_append_one, hvalue, digit_toNat hlast]
          omega

/-- A port is printed as the grammar has it. -/
theorem formatInt_portText {p : Int} (h : PortRange p) : PortText (formatInt p) p := by
  rcases h with rfl | ⟨hlo, hhi⟩
  · exact .unset
  · obtain ⟨n, rfl⟩ := Int.eq_ofNat_of_zero_le hlo
    obtain ⟨hdigits, hvalue⟩ := decimalDigits_spec (Nat.lt_succ_self n)
    have hport := PortText.digits hdigits (by omega)
    rw [hvalue] at hport
    have hprint : formatInt n = decimalDigits (n + 1) n := by
      simp [formatInt]
    rw [hprint]
    exact hport

theorem PortText.no_nul {t : Bytes} {p : Int} (h : PortText t p) : (0 : UInt8) ∉ t := by
  rcases h.plain with rfl | hdigits
  · decide
  · intro hmem
    have hzero := hdigits.digit 0 hmem
    simp [isDigit] at hzero

theorem formatAddr_bytes (host : CString) {port : Int} (h : PortRange port) :
    (formatAddr host port).bytes = host.bytes ++ 58 :: formatInt port := by
  have hnul : (0 : UInt8) ∉ host.bytes ++ 58 :: formatInt port := by
    simp [host.noNul, (formatInt_portText h).no_nul]
  rw [formatAddr, ofBytes_of_notMem hnul]

/-- What was printed is found again.  The host may have colons of its own. -/
theorem mongoUtilParseAddr_formatAddr {host : CString} {port : Int} (hne : host.bytes ≠ [])
    (hhead : host.bytes.head? ≠ some 91) (hport : PortRange port) :
    mongoUtilParseAddr (formatAddr host port) = .ok (host, port) := by
  have htext := formatInt_portText hport
  have hbytes := formatAddr_bytes host hport
  have hs : (formatAddr host port).bytes.head? ≠ some 91 := by
    rwa [hbytes, List.head?_append_of_ne_nil _ hne]
  rw [parse_colon hbytes hs htext.no_colon, if_neg hne, CString.ofBytes_bytes]
  exact parsePort_ok_iff.mpr ⟨rfl, .inr htext.numeral⟩

end LibMongo
