import HeidiKernel.Data.Output

namespace HeidiKernel.Kernel

open Data Numeric

/-! The events of the status socket and their text: one line of JSON each. -/

namespace Event

def quote : UInt8 := 0x22

def backslash : UInt8 := 0x5c

def newline : UInt8 := 0x0a

/-- One turn of the loop of `json_escape`. -/
def escapeChar (c : UInt8) (oss : OStream) : OStream :=
  if c = 0x22 then
    oss.put (bytes "\\\"")
  else if c = 0x5c then
    oss.put (bytes "\\\\")
  else if c = 0x08 then
    oss.put (bytes "\\b")
  else if c = 0x0c then
    oss.put (bytes "\\f")
  else if c = 0x0a then
    oss.put (bytes "\\n")
  else if c = 0x0d then
    oss.put (bytes "\\r")
  else if c = 0x09 then
    oss.put (bytes "\\t")
  else if c < 0x20 then
    (oss.put (bytes "\\u")).setHex |>.setWidth 4 |>.setFill 0x30
      |>.putInt (Int32.ofNat c.toNat)
  else
    oss.put [c]

def jsonEscape (s : Bytes) : Bytes :=
  let oss := ({} : OStream).put (bytes "\"")
  ((s.foldl (fun oss c => escapeChar c oss) oss).put (bytes "\"")).text

end Event

/-- A time point counts nanoseconds. -/
structure Event where
  id : Bytes
  timestamp : Int64
  type : Bytes
  payload : Bytes
  deriving DecidableEq, Repr

namespace Event

def toJson (event : Event) : Bytes :=
  let ts := event.timestamp / 1000000
  bytes "\x7b\"id\":" ++ jsonEscape event.id ++ bytes ",\"timestamp\":" ++
    printInt ts.toInt ++ bytes ",\"type\":" ++ jsonEscape event.type ++
    bytes ",\"payload\":" ++ event.payload ++ bytes "\x7d"

/-- What `publish_event` and `SUBSCRIBE` send for an event. -/
def message (event : Event) : Bytes := event.toJson ++ bytes "\n"

/-! Strings as the rules of JSON read them. `\\u00hh` is the byte `hh`. -/

def unescape? (c : UInt8) : Option UInt8 :=
  if c = 0x22 ∨ c = 0x5c ∨ c = 0x2f then
    some c
  else if c = 0x62 then
    some 0x08
  else if c = 0x66 then
    some 0x0c
  else if c = 0x6e then
    some 0x0a
  else if c = 0x72 then
    some 0x0d
  else if c = 0x74 then
    some 0x09
  else
    none

def isHexDigit (c : UInt8) : Bool :=
  isDigit c || (0x61 ≤ toLower c && toLower c ≤ 0x66)

def codeByte? (digits : Bytes) : Option UInt8 :=
  if digits.all isHexDigit ∧ natOfDigits 16 digits < 256 then
    some (UInt8.ofNat (natOfDigits 16 digits))
  else
    none

def prepend (c : UInt8) (read : Bytes × Bytes) : Bytes × Bytes :=
  (c :: read.1, read.2)

/-- The string up to the quote that ends it, and what follows. -/
def decodeBody : Bytes → Option (Bytes × Bytes)
  | [] => none
  | c :: rest =>
      if c = quote then
        some ([], rest)
      else if c = backslash then
        match rest with
        | [] => none
        | e :: rest =>
            if e = 0x75 then
              match rest with
              | a :: b :: x :: y :: rest =>
                  (codeByte? [a, b, x, y]).bind fun d =>
                    (decodeBody rest).map (prepend d)
              | _ => none
            else
              (unescape? e).bind fun d => (decodeBody rest).map (prepend d)
      else if c < 0x20 then
        none
      else
        (decodeBody rest).map (prepend c)

def decodeString : Bytes → Option (Bytes × Bytes)
  | [] => none
  | c :: rest => if c = quote then decodeBody rest else none

/-- The places of the quotes that no backslash escapes. -/
def openQuotes (i : Nat) : Bytes → List Nat
  | [] => []
  | c :: rest =>
      if c = backslash then
        match rest with
        | [] => []
        | _ :: rest => openQuotes (i + 2) rest
      else if c = quote then
        i :: openQuotes (i + 1) rest
      else
        openQuotes (i + 1) rest

/-! What one turn of the loop writes for a byte. -/

inductive Escapes : UInt8 → Bytes → Prop
  | short {e c : UInt8} :
      unescape? e = some c → 0x20 ≤ e → e ≠ 0x75 → Escapes c [backslash, e]
  | code {c : UInt8} :
      c < 0x20 →
        Escapes c [backslash, 0x75, 0x30, 0x30,
          (c.toNat / 16).digitChar.toUInt8, (c.toNat % 16).digitChar.toUInt8]
  | plain {c : UInt8} :
      0x20 ≤ c → c ≠ quote → c ≠ backslash → Escapes c [c]

/-- A turn starts without a width, whatever base and fill earlier ones left. -/
def Writes (c : UInt8) (oss next : OStream) : Prop :=
  next.width = 0 ∧ ∃ text, Escapes c text ∧ next.text = oss.text ++ text

/-- Padded to four digits, the code of a control byte is `00hh`. -/
theorem padded_code : ∀ n < 0x20,
    List.replicate (4 - (print 16 n).length) 0x30 ++ print 16 n =
      [0x30, 0x30, (n / 16).digitChar.toUInt8, (n % 16).digitChar.toUInt8] := by
  decide

theorem writes_short {oss : OStream} (h : oss.width = 0) {literal : String}
    {e c : UInt8} (hliteral : bytes literal = [backslash, e])
    (hread : unescape? e = some c) (hlow : 0x20 ≤ e) (hcode : e ≠ 0x75) :
    Writes c oss (oss.put (bytes literal)) := by
  refine ⟨rfl, [backslash, e], .short hread hlow hcode, ?_⟩
  rw [OStream.text_put h, hliteral]

theorem writes_code {oss : OStream} (h : oss.width = 0) {c : UInt8}
    (hcontrol : c < 0x20) :
    Writes c oss ((oss.put (bytes "\\u")).setHex |>.setWidth 4
      |>.setFill 0x30 |>.putInt (Int32.ofNat c.toNat)) := by
  have hlt : c.toNat < 0x20 := by simpa [UInt8.lt_iff_toNat_lt] using hcontrol
  have hvalue : (Int32.ofNat c.toNat).toUInt32.toNat = c.toNat := by
    change c.toNat % 2 ^ 32 = c.toNat
    omega
  refine ⟨rfl, _, .code hcontrol, ?_⟩
  change (oss.put (bytes "\\u")).text ++
    List.replicate (4 - (print 16 (Int32.ofNat c.toNat).toUInt32.toNat).length)
      0x30 ++ print 16 (Int32.ofNat c.toNat).toUInt32.toNat = _
  have hliteral : bytes "\\u" = [backslash, 0x75] := by decide +kernel
  rw [OStream.text_put h, hvalue, List.append_assoc, padded_code c.toNat hlt,
    List.append_assoc, hliteral]
  rfl

theorem escapeChar_writes {oss : OStream} (h : oss.width = 0) (c : UInt8) :
    Writes c oss (escapeChar c oss) := by
  unfold escapeChar
  split
  · subst c
    exact writes_short h (by decide +kernel : bytes "\\\"" = [backslash, 0x22])
      rfl (by decide) (by decide)
  split
  · subst c
    exact writes_short h (by decide +kernel : bytes "\\\\" = [backslash, 0x5c])
      rfl (by decide) (by decide)
  split
  · subst c
    exact writes_short h (by decide +kernel : bytes "\\b" = [backslash, 0x62])
      rfl (by decide) (by decide)
  split
  · subst c
    exact writes_short h (by decide +kernel : bytes "\\f" = [backslash, 0x66])
      rfl (by decide) (by decide)
  split
  · subst c
    exact writes_short h (by decide +kernel : bytes "\\n" = [backslash, 0x6e])
      rfl (by decide) (by decide)
  split
  · subst c
    exact writes_short h (by decide +kernel : bytes "\\r" = [backslash, 0x72])
      rfl (by decide) (by decide)
  split
  · subst c
    exact writes_short h (by decide +kernel : bytes "\\t" = [backslash, 0x74])
      rfl (by decide) (by decide)
  split
  · rename_i hcontrol
    exact writes_code h hcontrol
  · rename_i hquote hbackslash _ _ _ _ _ hplain
    exact ⟨rfl, [c], .plain (UInt8.not_lt.mp hplain) hquote hbackslash,
      OStream.text_put h [c]⟩

/-- The text of a byte string is the texts of its bytes. -/
inductive EscapesAll : Bytes → Bytes → Prop
  | nil : EscapesAll [] []
  | cons {c : UInt8} {s head tail : Bytes} :
      Escapes c head → EscapesAll s tail → EscapesAll (c :: s) (head ++ tail)

theorem foldl_escapeChar {oss : OStream} (h : oss.width = 0) (s : Bytes) :
    let after := s.foldl (fun oss c => escapeChar c oss) oss
    after.width = 0 ∧
      ∃ body, EscapesAll s body ∧ after.text = oss.text ++ body := by
  induction s generalizing oss with
  | nil => exact ⟨h, [], .nil, (List.append_nil _).symm⟩
  | cons c s ih =>
      obtain ⟨hwidth, head, hhead, htext⟩ := escapeChar_writes h c
      obtain ⟨hdone, tail, htail, hrest⟩ := ih hwidth
      refine ⟨hdone, head ++ tail, .cons hhead htail, ?_⟩
      rw [List.foldl_cons, hrest, htext, List.append_assoc]

theorem jsonEscape_body (s : Bytes) :
    ∃ body, EscapesAll s body ∧ jsonEscape s = quote :: (body ++ [quote]) := by
  have hquote : bytes "\"" = [quote] := by decide +kernel
  have hopened := OStream.width_put (bytes "\"") {}
  obtain ⟨hwidth, body, hbody, htext⟩ := foldl_escapeChar hopened s
  refine ⟨body, hbody, ?_⟩
  rw [jsonEscape, OStream.text_put hwidth, htext, hquote,
    OStream.text_put rfl]
  rfl

/-! Reading such a text. -/

theorem decodeBody_backslash {e c : UInt8} (hread : unescape? e = some c)
    (hcode : e ≠ 0x75) (rest : Bytes) :
    decodeBody (backslash :: e :: rest) =
      (decodeBody rest).map (prepend c) := by
  rw [decodeBody.eq_def]
  simp only [if_neg (show backslash ≠ quote by decide), if_true, if_neg hcode,
    hread, Option.bind_some]

theorem codeByte?_code : ∀ n < 0x20,
    codeByte? [0x30, 0x30, (n / 16).digitChar.toUInt8,
      (n % 16).digitChar.toUInt8] = some (UInt8.ofNat n) := by
  decide

theorem decodeBody_code {c : UInt8} (h : c < 0x20) (rest : Bytes) :
    decodeBody (backslash :: 0x75 :: 0x30 :: 0x30 ::
        (c.toNat / 16).digitChar.toUInt8 ::
        (c.toNat % 16).digitChar.toUInt8 :: rest) =
      (decodeBody rest).map (prepend c) := by
  have hlt : c.toNat < 0x20 := by simpa [UInt8.lt_iff_toNat_lt] using h
  rw [decodeBody, if_neg (by decide), if_pos rfl]
  simp only [if_true, codeByte?_code c.toNat hlt, UInt8.ofNat_toNat,
    Option.bind_some]

theorem decodeBody_escapes {c : UInt8} {text : Bytes} (h : Escapes c text)
    (rest : Bytes) :
    decodeBody (text ++ rest) = (decodeBody rest).map (prepend c) := by
  cases h with
  | short hread _ hcode => exact decodeBody_backslash hread hcode rest
  | code hcontrol => exact decodeBody_code hcontrol rest
  | plain hplain hquote hbackslash =>
      rw [List.singleton_append, decodeBody.eq_def]
      simp only [if_neg hquote, if_neg hbackslash,
        if_neg (UInt8.not_lt.mpr hplain)]

theorem hexDigits_plain : ∀ n < 0x20,
    ∀ d ∈ [n / 16, n % 16], 0x20 ≤ d.digitChar.toUInt8 ∧
      d.digitChar.toUInt8 ≠ quote ∧ d.digitChar.toUInt8 ≠ backslash := by
  decide

/-- The two digits behind the zeros of an escaped control character. -/
theorem hexDigits_control {c : UInt8} (h : c < 0x20) :
    ∀ d ∈ [c.toNat / 16, c.toNat % 16], 0x20 ≤ d.digitChar.toUInt8 ∧
      d.digitChar.toUInt8 ≠ quote ∧ d.digitChar.toUInt8 ≠ backslash :=
  hexDigits_plain c.toNat (by simpa [UInt8.lt_iff_toNat_lt] using h)

theorem openQuotes_plain {c : UInt8} (hquote : c ≠ quote)
    (hbackslash : c ≠ backslash) (i : Nat) (rest : Bytes) :
    openQuotes i (c :: rest) = openQuotes (i + 1) rest := by
  rw [openQuotes.eq_def]
  simp only [if_neg hbackslash, if_neg hquote]

theorem openQuotes_backslash (i : Nat) (e : UInt8) (rest : Bytes) :
    openQuotes i (backslash :: e :: rest) = openQuotes (i + 2) rest := by
  rw [openQuotes, if_pos rfl]

theorem openQuotes_quote (i : Nat) (rest : Bytes) :
    openQuotes i (quote :: rest) = i :: openQuotes (i + 1) rest := by
  rw [openQuotes.eq_def]
  simp only [if_neg (show quote ≠ backslash by decide), if_true]

theorem openQuotes_escapes {c : UInt8} {text : Bytes} (h : Escapes c text)
    (i : Nat) (rest : Bytes) :
    openQuotes i (text ++ rest) = openQuotes (i + text.length) rest := by
  cases h with
  | short _ _ _ => exact openQuotes_backslash i _ rest
  | code hcontrol =>
      have hdigits := List.forall_mem_cons.mp (hexDigits_control hcontrol)
      have hhigh := hdigits.1
      have hlow := List.forall_mem_singleton.mp hdigits.2
      change openQuotes i (backslash :: 0x75 :: 0x30 :: 0x30 :: _ :: _ :: rest) =
        openQuotes (i + 6) rest
      rw [openQuotes_backslash, openQuotes_plain (by decide) (by decide),
        openQuotes_plain (by decide) (by decide),
        openQuotes_plain hhigh.2.1 hhigh.2.2,
        openQuotes_plain hlow.2.1 hlow.2.2]
  | plain _ hquote hbackslash => exact openQuotes_plain hquote hbackslash i rest

theorem escapes_printable {c : UInt8} {text : Bytes} (h : Escapes c text) :
    ∀ b ∈ text, 0x20 ≤ b := by
  cases h with
  | short _ hlow _ =>
      exact List.forall_mem_cons.mpr
        ⟨by decide, List.forall_mem_singleton.mpr hlow⟩
  | code hcontrol =>
      have hdigits := List.forall_mem_cons.mp (hexDigits_control hcontrol)
      have hlow := List.forall_mem_singleton.mp hdigits.2
      simp only [List.forall_mem_cons]
      refine ⟨by decide, by decide, by decide, by decide, hdigits.1.1, hlow.1, ?_⟩
      exact List.forall_mem_nil _
  | plain hplain _ _ => exact List.forall_mem_singleton.mpr hplain

namespace EscapesAll

variable {s body : Bytes} (h : EscapesAll s body)

include h

theorem decodeBody_eq (rest : Bytes) :
    decodeBody (body ++ quote :: rest) = some (s, rest) := by
  induction h with
  | nil =>
      rw [List.nil_append, decodeBody.eq_def]
      simp only [if_true]
  | cons hhead _ ih =>
      rw [List.append_assoc, decodeBody_escapes hhead, ih]
      rfl

theorem openQuotes_eq (i : Nat) (rest : Bytes) :
    openQuotes i (body ++ rest) = openQuotes (i + body.length) rest := by
  induction h generalizing i with
  | nil => rfl
  | cons hhead _ ih =>
      rw [List.append_assoc, openQuotes_escapes hhead, ih, List.length_append,
        Nat.add_assoc]

theorem printable : ∀ b ∈ body, 0x20 ≤ b := by
  induction h with
  | nil => exact List.forall_mem_nil _
  | cons hhead _ ih =>
      exact List.forall_mem_append.mpr ⟨escapes_printable hhead, ih⟩

end EscapesAll

theorem decodeString_jsonEscape (s rest : Bytes) :
    decodeString (jsonEscape s ++ rest) = some (s, rest) := by
  obtain ⟨body, hbody, htext⟩ := jsonEscape_body s
  rw [htext, List.cons_append, decodeString, if_pos rfl, List.append_assoc]
  exact hbody.decodeBody_eq rest

theorem openQuotes_jsonEscape (s : Bytes) :
    openQuotes 0 (jsonEscape s) = [0, (jsonEscape s).length - 1] := by
  obtain ⟨body, hbody, htext⟩ := jsonEscape_body s
  rw [htext, openQuotes_quote, hbody.openQuotes_eq, openQuotes_quote,
    openQuotes, List.length_cons, List.length_append, Nat.add_sub_cancel,
    Nat.add_comm 0 1, Nat.add_comm 1]
  rfl

theorem jsonEscape_printable (s : Bytes) : ∀ b ∈ jsonEscape s, 0x20 ≤ b := by
  obtain ⟨body, hbody, htext⟩ := jsonEscape_body s
  rw [htext]
  refine List.forall_mem_cons.mpr ⟨by decide, ?_⟩
  exact List.forall_mem_append.mpr
    ⟨hbody.printable, List.forall_mem_singleton.mpr (by decide)⟩

/-! The line of an event, and how a reader gets its strings back. -/

def dropLiteral? (literal : String) (text : Bytes) : Option Bytes :=
  if bytes literal <+: text then
    some (text.drop (bytes literal).length)
  else
    none

def isNumberByte (c : UInt8) : Bool := c = 0x2d || isDigit c

def readIdAndType? (text : Bytes) : Option (Bytes × Bytes) := do
  let rest ← dropLiteral? "\x7b\"id\":" text
  let (id, rest) ← decodeString rest
  let rest ← dropLiteral? ",\"timestamp\":" rest
  let rest ← dropLiteral? ",\"type\":" (rest.dropWhile isNumberByte)
  let (type, _) ← decodeString rest
  some (id, type)

@[simp] theorem dropLiteral?_append (literal : String) (rest : Bytes) :
    dropLiteral? literal (bytes literal ++ rest) = some rest := by
  rw [dropLiteral?, if_pos (List.prefix_append _ _), List.drop_left]

theorem isNumberByte_printInt (n : Int) :
    ∀ c ∈ printInt n, isNumberByte c = true := by
  have hdigit : ∀ c ∈ print 10 n.natAbs, isNumberByte c = true := by
    intro c hc
    rw [isNumberByte, isDigit_print _ c hc, Bool.or_true]
  unfold printInt
  split
  · exact List.forall_mem_cons.mpr ⟨rfl, hdigit⟩
  · exact hdigit

theorem dropWhile_printInt (n : Int) (rest : Bytes) :
    (printInt n ++ (bytes ",\"type\":" ++ rest)).dropWhile isNumberByte =
      bytes ",\"type\":" ++ rest := by
  have hcomma : bytes ",\"type\":" = 0x2c :: (bytes ",\"type\":").tail := by
    decide +kernel
  rw [hcomma, List.cons_append]
  exact dropWhile_span_cons (isNumberByte_printInt n) (by decide) _

theorem readIdAndType?_toJson (event : Event) :
    readIdAndType? event.toJson = some (event.id, event.type) := by
  simp only [readIdAndType?, toJson, List.append_assoc, dropLiteral?_append,
    Option.bind_eq_bind, Option.bind_some, decodeString_jsonEscape,
    dropWhile_printInt]

theorem newline_not_mem_jsonEscape (s : Bytes) : newline ∉ jsonEscape s := by
  intro hmem
  exact absurd (jsonEscape_printable s newline hmem) (by decide)

theorem newline_not_mem_printInt (n : Int) : newline ∉ printInt n := by
  intro hmem
  exact absurd (isNumberByte_printInt n newline hmem) (by decide)

theorem newline_not_mem_toJson {event : Event} (h : newline ∉ event.payload) :
    newline ∉ event.toJson := by
  have hid : newline ∉ bytes "\x7b\"id\":" := by decide +kernel
  have htimestamp : newline ∉ bytes ",\"timestamp\":" := by decide +kernel
  have htype : newline ∉ bytes ",\"type\":" := by decide +kernel
  have hpayload : newline ∉ bytes ",\"payload\":" := by decide +kernel
  have hclose : newline ∉ bytes "\x7d" := by decide +kernel
  simp only [toJson, List.mem_append, not_or]
  exact ⟨⟨⟨⟨⟨⟨⟨⟨hid, newline_not_mem_jsonEscape _⟩, htimestamp⟩,
    newline_not_mem_printInt _⟩, htype⟩, newline_not_mem_jsonEscape _⟩,
    hpayload⟩, h⟩, hclose⟩

theorem splitOn_messages {events : List Event}
    (h : ∀ event ∈ events, newline ∉ event.payload) :
    (events.flatMap message).splitOn newline =
      events.map toJson ++ [[]] := by
  have hnewline : bytes "\n" = [newline] := by decide +kernel
  induction events with
  | nil => rfl
  | cons event events ih =>
      obtain ⟨hevent, hevents⟩ := List.forall_mem_cons.mp h
      rw [List.flatMap_cons, message, hnewline, List.append_assoc,
        List.singleton_append,
        List.splitOn_append_cons_self_of_not_mem
          (newline_not_mem_toJson hevent), ih hevents]
      rfl

/-- Strings survive their encoding, and a stream of events its framing. -/
theorem eventText_roundTrip (s : Bytes) (events : List Event)
    (hpayload : ∀ event ∈ events, newline ∉ event.payload) :
    decodeString (jsonEscape s) = some (s, []) ∧
      (∀ b ∈ jsonEscape s, 0x20 ≤ b) ∧
      openQuotes 0 (jsonEscape s) = [0, (jsonEscape s).length - 1] ∧
      (events.flatMap message).splitOn newline =
        events.map toJson ++ [[]] ∧
      ((events.flatMap message).splitOn newline).dropLast.map readIdAndType? =
        events.map fun event => some (event.id, event.type) := by
  have hdecode := decodeString_jsonEscape s []
  rw [List.append_nil] at hdecode
  refine ⟨hdecode, jsonEscape_printable s, openQuotes_jsonEscape s,
    splitOn_messages hpayload, ?_⟩
  rw [splitOn_messages hpayload, List.dropLast_concat, List.map_map]
  apply List.map_congr_left
  intro event _
  exact readIdAndType?_toJson event

theorem eventText_roundTrip_nested :
    decodeString (jsonEscape [0x22, 0x01, 0x66, 0x5c, 0x6e]) =
      some ([0x22, 0x01, 0x66, 0x5c, 0x6e], []) :=
  (eventText_roundTrip [0x22, 0x01, 0x66, 0x5c, 0x6e]
    [⟨[0x0a], 0, [0x7f], [0x7b, 0x7d]⟩]
    (List.forall_mem_singleton.mpr (by decide))).1

end Event

end HeidiKernel.Kernel
