import Mathlib.Data.List.TakeDrop
import MeshLayout.Json.Parser
import MeshLayout.Json.Printer

/-!
# Reading what is written

A plain document, without decimals and repeated members, is read back from its text as it is. The
text is one list of characters (`Json.chars`), and every value in it ends where a comma, a bracket
or a brace follows, so that the reader needs to know of what comes next only that it does not go on
a number.
-/

set_option autoImplicit false

namespace MeshLayout.Json

def escape (c : Char) : List Char :=
  if c = '"' then ['\\', '"']
  else if c = '\\' then ['\\', '\\']
  else if c < ' ' then
    ['\\', 'u', '0', '0', Nat.digitChar (c.toNat / 16), Nat.digitChar (c.toNat % 16)]
  else [c]

def quoted (text : String) : List Char := '"' :: (text.toList.flatMap escape ++ ['"'])

mutual

def chars : Json → List Char
  | null => ['n', 'u', 'l', 'l']
  | bool true => ['t', 'r', 'u', 'e']
  | bool false => ['f', 'a', 'l', 's', 'e']
  | integer n => (toString n).toList
  | decimal written => written.toList
  | text value => quoted value
  | list [] => ['[', ']']
  | list (item :: rest) => '[' :: (item.chars ++ itemChars rest)
  | record [] => ['\x7b', '\x7d']
  | record ((name, value) :: rest) =>
    '\x7b' :: (quoted name ++ ':' :: (value.chars ++ memberChars rest))

def itemChars : List Json → List Char
  | [] => [']']
  | item :: rest => ',' :: (item.chars ++ itemChars rest)

def memberChars : List (String × Json) → List Char
  | [] => ['\x7d']
  | (name, value) :: rest => ',' :: (quoted name ++ ':' :: (value.chars ++ memberChars rest))

end

mutual

/-- No number in the value is a decimal, and no object in it has two members of one name. -/
def Plain : Json → Prop
  | decimal _ => False
  | list items => PlainItems items
  | record members => PlainMembers members
  | null | bool _ | integer _ | text _ => True

def PlainItems : List Json → Prop
  | [] => True
  | item :: rest => item.Plain ∧ PlainItems rest

def PlainMembers : List (String × Json) → Prop
  | [] => True
  | (name, value) :: rest => value.Plain ∧ lookup name rest = none ∧ PlainMembers rest

end

namespace Printer

theorem char_toList (out : String) (c : Char) : (char out c).toList = out.toList ++ escape c := by
  unfold char escape
  split
  · simp
  · split
    · simp
    · split <;> simp

theorem text_toList (out value : String) :
    (text out value).toList = out.toList ++ quoted value := by
  have hfold : ∀ (cs : List Char) (out : String),
      (cs.foldl char out).toList = out.toList ++ cs.flatMap escape := by
    intro cs
    induction cs with
    | nil => simp
    | cons c rest ih =>
      intro out
      rw [List.foldl_cons, ih, char_toList, List.flatMap_cons, List.append_assoc]
  simp [text, hfold, quoted]

mutual

theorem value_toList (out : String) : ∀ v : Json, (value out v).toList = out.toList ++ v.chars
  | null => by simp [value, chars]
  | bool true => by simp [value, chars]
  | bool false => by simp [value, chars]
  | integer n => by simp [value, chars]
  | decimal written => by simp [value, chars]
  | .text given => by rw [value, chars, text_toList]
  | list [] => by simp [value, chars]
  | list (item :: rest) => by
    rw [value, chars, String.toList_push, items_toList _ rest, value_toList _ item,
      String.toList_push]
    simp
  | record [] => by simp [value, chars]
  | record ((name, first) :: rest) => by
    simp [value, chars, members_toList _ rest, value_toList _ first, text_toList]

theorem items_toList (out : String) :
    ∀ rest : List Json, (items out rest).toList ++ [']'] = out.toList ++ itemChars rest
  | [] => by simp [items, itemChars]
  | item :: rest => by
    rw [items, itemChars, items_toList _ rest, value_toList _ item, String.toList_push]
    simp

theorem members_toList (out : String) : ∀ rest : List (String × Json),
    (members out rest).toList ++ ['\x7d'] = out.toList ++ memberChars rest
  | [] => by simp [members, memberChars]
  | (name, first) :: rest => by
    rw [members, memberChars, members_toList _ rest, value_toList _ first]
    simp [text_toList]

end

end Printer

namespace Parser

/-- What comes next does not go on a number. -/
def Stops (rest : List Char) : Prop := ∀ c ∈ rest.head?, isNumberChar c = false

theorem hexDigit?_digitChar : ∀ n < 16, hexDigit? (Nat.digitChar n) = some n := by decide

theorem text?_escape (c : Char) (read rest : List Char) :
    text? .char none read (escape c ++ rest) = text? .char none (c :: read) rest := by
  unfold escape
  split
  · next h =>
    subst h
    rfl
  · next hquote =>
    split
    · next h =>
      subst h
      rfl
    · next hslash =>
      split
      · next hcontrol =>
        have hlt : c.toNat < 32 := hcontrol
        have hunit : 16 * (c.toNat / 16) + c.toNat % 16 = c.toNat := Nat.div_add_mod _ 16
        have hhigh : isHigh c.toNat = false := by simp [isHigh]; omega
        have hchar : unitChar? none c.toNat = some c := by
          rw [unitChar?, if_pos (by omega), Char.ofNat_toNat]
        simp [text?, hexDigit?_digitChar (c.toNat / 16) (by omega),
          hexDigit?_digitChar (c.toNat % 16) (by omega), hunit, hhigh, hchar,
          show hexDigit? '0' = some 0 from rfl]
      · next hplain =>
        simp [text?, hslash, hquote, hplain]

theorem text?_flatMap (cs read rest : List Char) :
    text? .char none read (cs.flatMap escape ++ '"' :: rest) =
      some (String.ofList (read.reverse ++ cs), rest) := by
  induction cs generalizing read with
  | nil => simp [text?]
  | cons c cs ih =>
    rw [List.flatMap_cons, List.append_assoc, text?_escape, ih, List.reverse_cons,
      List.append_assoc, List.singleton_append]

theorem text?_quoted (value : String) (rest : List Char) :
    text? .char none [] (value.toList.flatMap escape ++ '"' :: rest) = some (value, rest) := by
  rw [text?_flatMap, List.reverse_nil, List.nil_append, String.ofList_toList]

theorem natural_toDigits (n : Nat) : natural (Nat.toDigits 10 n) = n := by
  rw [natural, ← Nat.ofDigitChars_eq_foldl, Nat.ofDigitChars_ten_toDigits]

theorem isDigit_toDigits (n : Nat) : ∀ c ∈ Nat.toDigits 10 n, c.isDigit = true :=
  fun _ hc => Nat.isDigit_of_mem_toDigits (by decide) (by decide) hc

theorem isWhole_toDigits (n : Nat) : isWhole (Nat.toDigits 10 n) = true := by
  rw [isWhole, natural_toDigits, beq_self_eq_true]

theorem number?_toDigits (n : Nat) : number? (Nat.toDigits 10 n) = some (integer n) := by
  unfold number?
  split
  · next digits hdigits => exact absurd (isDigit_toDigits n '-' (by simp [hdigits])) (by decide)
  · rw [if_pos (isWhole_toDigits n), natural_toDigits]

theorem toString_cases (n : Int) : (∃ m : Nat, n = m ∧ (toString n).toList = Nat.toDigits 10 m) ∨
    ∃ m : Nat, n = -(m + 1 : Nat) ∧ (toString n).toList = '-' :: Nat.toDigits 10 (m + 1) := by
  cases n with
  | ofNat m =>
    refine .inl ⟨m, rfl, ?_⟩
    rw [show toString (Int.ofNat m) = toString m from rfl, Nat.toString_eq_ofList_toDigits,
      String.toList_ofList]
  | negSucc m =>
    refine .inr ⟨m, rfl, ?_⟩
    rw [show toString (Int.negSucc m) = "-" ++ toString (m + 1) from rfl, String.toList_append,
      Nat.toString_eq_ofList_toDigits]
    exact congrArg (List.cons '-') String.toList_ofList

theorem number?_toString (n : Int) : number? (toString n).toList = some (integer n) := by
  rcases toString_cases n with ⟨m, rfl, hwritten⟩ | ⟨m, rfl, hwritten⟩
  · rw [hwritten, number?_toDigits]
  · rw [hwritten, number?, isWhole_toDigits, natural_toDigits]
    rfl

theorem isNumberChar_toString (n : Int) : ∀ c ∈ (toString n).toList, isNumberChar c = true := by
  intro c hc
  rcases toString_cases n with ⟨m, -, hwritten⟩ | ⟨m, -, hwritten⟩ <;> rw [hwritten] at hc
  · simp [isNumberChar, isDigit_toDigits m c hc]
  · rcases List.mem_cons.mp hc with rfl | hdigit
    · rfl
    · simp [isNumberChar, isDigit_toDigits (m + 1) c hdigit]

theorem span_append {written rest : List Char}
    (hwritten : ∀ c ∈ written, isNumberChar c = true) (h : Stops rest) :
    (written ++ rest).span isNumberChar = (written, rest) := by
  have htake : rest.takeWhile isNumberChar = [] ∧ rest.dropWhile isNumberChar = rest := by
    cases rest with
    | nil => exact ⟨rfl, rfl⟩
    | cons c rest =>
      have hc : isNumberChar c = false := h c rfl
      simp [hc]
  rw [List.span_eq_takeWhile_dropWhile, List.takeWhile_append_of_pos hwritten,
    List.dropWhile_append_of_pos hwritten, htake.1, htake.2, List.append_nil]

theorem skipBlanks_cons {c : Char} (h : isBlank c = false) (rest : List Char) :
    skipBlanks (c :: rest) = c :: rest := by
  simp [skipBlanks, h]

def marks : List Char := [' ', '\n', '\r', '\t', '\x7b', '[', ']', '"', 't', 'f', 'n']

theorem isBlank_of_ne {c : Char} (h : ∀ mark ∈ marks, c ≠ mark) : isBlank c = false := by
  have hspace := h ' ' (by decide)
  have hline := h '\n' (by decide)
  have hreturn := h '\r' (by decide)
  have htab := h '\t' (by decide)
  simp [isBlank, hspace, hline, hreturn, htab]

theorem toString_head (n : Int) :
    ∃ c rest, (toString n).toList = c :: rest ∧ ∀ mark ∈ marks, c ≠ mark := by
  have hmarks : ∀ mark ∈ marks, mark.isDigit = false := by simp [marks]
  have hdash : '-' ∉ marks := by simp [marks]
  rcases toString_cases n with ⟨m, -, hwritten⟩ | ⟨m, -, hwritten⟩
  · obtain ⟨c, rest, hdigits⟩ := List.exists_cons_of_ne_nil (@Nat.toDigits_ne_nil m 10)
    refine ⟨c, rest, hwritten.trans hdigits, ?_⟩
    rintro mark hmark rfl
    have hdigit := isDigit_toDigits m c (by simp [hdigits])
    rw [hmarks c hmark] at hdigit
    cases hdigit
  · exact ⟨'-', _, hwritten, fun mark hmark => (ne_of_mem_of_not_mem hmark hdash).symm⟩

theorem value?_number {c : Char} {tail rest : List Char} {v : Json} (fuel : Nat)
    (hne : ∀ mark ∈ marks, c ≠ mark) (hnumber : ∀ d ∈ c :: tail, isNumberChar d = true)
    (hread : number? (c :: tail) = some v) (h : Stops rest) :
    value? (fuel + 1) (c :: tail ++ rest) = some (v, rest) := by
  have hskip : skipBlanks (c :: tail ++ rest) = c :: tail ++ rest :=
    skipBlanks_cons (isBlank_of_ne hne) _
  rw [value?, hskip]
  split
  case h_7 =>
    simp only [span_append hnumber h, hread, Option.bind_eq_bind, Option.bind_some]
    rfl
  -- The other cases begin with a mark.
  all_goals
    next heq =>
    exact absurd (List.cons.inj heq).1 (hne _ (by decide))

theorem chars_head (v : Json) (h : v.Plain) :
    ∃ c rest, v.chars = c :: rest ∧ isBlank c = false ∧ c ≠ ']' := by
  match v with
  | null | bool true | bool false | text _ | list [] | list (_ :: _) | record []
  | record (_ :: _) =>
    rw [chars]
    exact ⟨_, _, rfl, by decide, by decide⟩
  | integer n =>
    obtain ⟨c, rest, hwritten, hne⟩ := toString_head n
    exact ⟨c, rest, by rw [chars, hwritten], isBlank_of_ne hne, hne ']' (by decide)⟩
  | decimal _ => exact absurd h (by simp [Plain])

theorem chars_skip {v : Json} (h : v.Plain) (rest : List Char) :
    skipBlanks (v.chars ++ rest) = v.chars ++ rest := by
  obtain ⟨c, tail, hchars, hblank, -⟩ := chars_head v h
  rw [hchars, List.cons_append, skipBlanks_cons hblank]

theorem quoted_skip (name : String) (rest : List Char) :
    skipBlanks (quoted name ++ rest) = quoted name ++ rest :=
  skipBlanks_cons (by decide) _

theorem addMember_of_lookup {name : String} {members : List (String × Json)} (value : Json)
    (h : lookup name members = none) : addMember name value members = (name, value) :: members := by
  rw [addMember, h]
  rfl

theorem stops_itemChars (items : List Json) (rest : List Char) :
    Stops (itemChars items ++ rest) := by
  cases items <;> simp [Stops, itemChars, isNumberChar]

theorem stops_memberChars (members : List (String × Json)) (rest : List Char) :
    Stops (memberChars members ++ rest) := by
  cases members <;> simp [Stops, memberChars, isNumberChar]

mutual

/-- A value is read back whatever stops after it. The induction is on the number of parts that may
still be read; a list or an object passes on all but the one that its bracket takes. -/
theorem value?_chars (fuel : Nat) (v : Json) (rest : List Char) (hplain : v.Plain)
    (hfuel : v.chars.length ≤ fuel) (hrest : Stops rest) :
    value? fuel (v.chars ++ rest) = some (v, rest) := by
  match fuel, v with
  | 0, v =>
    obtain ⟨c, tail, hchars, -⟩ := chars_head v hplain
    simp [hchars] at hfuel
  | _ + 1, null => rfl
  | _ + 1, bool true => rfl
  | _ + 1, bool false => rfl
  | fuel + 1, integer n =>
    obtain ⟨c, tail, hwritten, hne⟩ := toString_head n
    rw [chars, hwritten]
    exact value?_number fuel hne (hwritten ▸ isNumberChar_toString n)
      (hwritten ▸ number?_toString n) hrest
  | _ + 1, decimal _ => exact absurd hplain (by simp [Plain])
  | fuel + 1, text given =>
    rw [value?, chars_skip hplain, chars, quoted]
    simp [text?_quoted]
  | _ + 1, list [] => rfl
  | fuel + 1, list (item :: items) =>
    have hitems := items?_chars fuel item items rest hplain.1 hplain.2
      (by simpa [chars] using hfuel)
    obtain ⟨first, others, hitem, hblank, hne⟩ := chars_head item hplain.1
    rw [value?, chars_skip hplain, chars, List.cons_append, List.append_assoc]
    simp only
    rw [chars_skip hplain.1]
    split
    · next heq =>
      rw [hitem, List.cons_append] at heq
      exact absurd (List.cons.inj heq).1 hne
    · rw [hitems]
      rfl
  | _ + 1, record [] => rfl
  | fuel + 1, record ((name, first) :: members) =>
    have hmembers := members?_chars fuel name first members rest hplain
      (by
        simp only [chars, List.length_cons, List.length_append] at hfuel
        omega)
    rw [value?, chars_skip hplain, chars]
    simp only [List.cons_append, List.append_assoc]
    rw [quoted_skip]
    split
    · next heq => exact absurd (List.cons.inj heq).1 (by decide)
    · rw [hmembers]
      rfl

theorem items?_chars (fuel : Nat) (item : Json) (items : List Json) (rest : List Char)
    (hitem : item.Plain) (hplain : PlainItems items)
    (hfuel : item.chars.length + (itemChars items).length ≤ fuel) :
    items? fuel (item.chars ++ (itemChars items ++ rest)) = some (item :: items, rest) := by
  have hpos : 0 < (itemChars items).length := by cases items <;> simp [itemChars]
  match fuel, items with
  | 0, items => omega
  | fuel + 1, items =>
    have hfirst := value?_chars fuel item (itemChars items ++ rest) hitem (by omega)
      (stops_itemChars items rest)
    rw [items?, hfirst]
    match items with
    | [] => rfl
    | next :: others =>
      have hothers := items?_chars fuel next others rest hplain.1 hplain.2 (by
        simp only [itemChars, List.length_cons, List.length_append] at hfuel
        omega)
      simp only [itemChars, List.cons_append, List.append_assoc, Option.bind_eq_bind,
        Option.bind_some]
      rw [skipBlanks_cons (by decide)]
      simp only [hothers]
      rfl

theorem members?_chars (fuel : Nat) (name : String) (first : Json)
    (members : List (String × Json)) (rest : List Char)
    (hplain : PlainMembers ((name, first) :: members))
    (hfuel : (quoted name).length + (first.chars.length + (memberChars members).length) < fuel) :
    members? fuel (quoted name ++ ':' :: (first.chars ++ (memberChars members ++ rest))) =
      some ((name, first) :: members, rest) := by
  match fuel with
  | 0 => omega
  | fuel + 1 =>
    have hvalue := value?_chars fuel first (memberChars members ++ rest) hplain.1 (by omega)
      (stops_memberChars members rest)
    rw [members?, quoted_skip, quoted, List.cons_append, List.append_assoc,
      List.singleton_append]
    simp only [text?_quoted, Option.bind_eq_bind, Option.bind_some]
    rw [skipBlanks_cons (by decide)]
    simp only [hvalue, Option.bind_some]
    match members with
    | [] => rfl
    | (next, second) :: others =>
      have hothers := members?_chars fuel next second others rest hplain.2.2 (by
        simp only [memberChars, List.length_cons, List.length_append] at hfuel
        omega)
      simp only [memberChars, List.cons_append, List.append_assoc]
      rw [skipBlanks_cons (by decide)]
      have hadd := addMember_of_lookup first hplain.2.1
      simp only [hothers, Option.bind_some, hadd]
      rfl

end

end Parser

theorem parse?_render {v : Json} (h : v.Plain) (hdepth : v.depth < depthLimit) :
    parse? v.render = some v := by
  have hchars : v.render.toList = v.chars := by
    rw [render, Printer.value_toList, String.toList_empty, List.nil_append]
  have hvalue := Parser.value?_chars (v.chars.length + 1) v [] h (Nat.le_succ _)
    (by simp [Parser.Stops])
  rw [List.append_nil] at hvalue
  rw [parse?, hchars]
  simp only [hvalue, hdepth, Option.bind_eq_bind, Option.bind_some]
  rfl

end MeshLayout.Json
