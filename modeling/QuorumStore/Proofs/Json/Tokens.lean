import Mathlib.Data.List.TakeDrop
import QuorumStore.Json.Token

/-!
# The tokens of a written text

A token that is written in compact form is read back, whatever follows it. Only a number has to be
followed by something that does not go on with it.

* `JsonToken.stringRest?_flatMap_escape`: an escaped string is read up to its closing quote.
* `JsonToken.next?_integerChars`: an integer is read up to its last digit.
* `JsonToken.Lexes`: the tokens of a text, found with any limit that the text's length allows.
* `JsonToken.Lexes.integer`, `JsonToken.Lexes.mark`: **a written token in front of a text is its first
  token.**
-/

namespace QuorumStore

namespace Hexadecimal

theorem value?_digit {n : Nat} (h : n < 16) : value? (digit n) = some n := by
  have hall : ∀ n < 16, value? (digit n) = some n := by decide
  exact hall n h

/-- The four digits of a number below 256. -/
theorem number?_zero_zero {n : Nat} (h : n < 256) :
    number? ['0', '0', digit (n / 16), digit (n % 16)] = some n := by
  have hhigh : n / 16 < 16 := by omega
  have hlow : n % 16 < 16 := by omega
  have hzero : value? '0' = some 0 := rfl
  simp [number?, value?_digit hhigh, value?_digit hlow, hzero]
  omega

end Hexadecimal

namespace JsonToken

section Strings

variable {a b c d : Char} {n : Nat}

/-- Text that goes on with an escape of four digits. -/
def StartsEscape (rest : List Char) : Prop :=
  ∃ a b c d rest', rest = '\\' :: 'u' :: a :: b :: c :: d :: rest'

/-- An escape of four digits with another one behind it, with which it may make a pair. -/
theorem stringRest?_twoEscapes (a b c d a' b' c' d' : Char) (rest : List Char) :
    stringRest? ('\\' :: 'u' :: a :: b :: c :: d :: '\\' :: 'u' :: a' :: b' :: c' :: d' :: rest) =
      match Hexadecimal.number? [a, b, c, d], Hexadecimal.number? [a', b', c', d'] with
      | some high, some low =>
        if isHighHalf high && isLowHalf low then
          (stringRest? rest).map (StringRest.cons (joinHalves high low))
        else
          let others := stringRest? ('\\' :: 'u' :: a' :: b' :: c' :: d' :: rest)
          if isHighHalf high || isLowHalf high then others.map StringRest.spoil
          else others.map (StringRest.cons (Char.ofNat high))
      | _, _ => none :=
  rfl

/-- An escape of four digits with anything else behind it. -/
theorem stringRest?_oneEscape (a b c d : Char) {rest : List Char} (hrest : ¬ StartsEscape rest) :
    stringRest? ('\\' :: 'u' :: a :: b :: c :: d :: rest) =
      match Hexadecimal.number? [a, b, c, d] with
      | some n =>
        if isHighHalf n || isLowHalf n then (stringRest? rest).map StringRest.spoil
        else (stringRest? rest).map (StringRest.cons (Char.ofNat n))
      | none => none :=
  stringRest?.eq_4 _ _ _ _ _ fun a' b' c' d' rest' h => hrest ⟨a', b', c', d', rest', h⟩

theorem stringRest?_badDigits (rest : List Char)
    (hnumber : Hexadecimal.number? [a, b, c, d] = none) :
    stringRest? ('\\' :: 'u' :: a :: b :: c :: d :: rest) = none := by
  by_cases hrest : StartsEscape rest
  · obtain ⟨a', b', c', d', rest', rfl⟩ := hrest
    rw [stringRest?_twoEscapes, hnumber]
  · rw [stringRest?_oneEscape a b c d hrest, hnumber]

/-- An escape of four digits stands for one character, unless it is half of a surrogate pair. -/
theorem stringRest?_fourDigits (rest : List Char)
    (hnumber : Hexadecimal.number? [a, b, c, d] = some n) (hsmall : n < 0xd800) :
    stringRest? ('\\' :: 'u' :: a :: b :: c :: d :: rest) =
      (stringRest? rest).map (StringRest.cons (Char.ofNat n)) := by
  have hhigh : isHighHalf n = false := by
    simp only [isHighHalf, Bool.and_eq_false_iff, decide_eq_false_iff_not]
    omega
  have hlow : isLowHalf n = false := by
    simp only [isLowHalf, Bool.and_eq_false_iff, decide_eq_false_iff_not]
    omega
  by_cases hrest : StartsEscape rest
  · -- another escape follows, with which this one makes no pair
    obtain ⟨a', b', c', d', rest', rfl⟩ := hrest
    rw [stringRest?_twoEscapes, hnumber]
    cases hnumber' : Hexadecimal.number? [a', b', c', d'] with
    | none => rw [stringRest?_badDigits _ hnumber']; rfl
    | some n' => simp [hhigh, hlow]
  · rw [stringRest?_oneEscape a b c d hrest, hnumber]
    simp [hhigh, hlow]

/-- An escape of one letter. -/
theorem stringRest?_letter {e : Char} (rest : List Char) (he : escaped? e = some c)
    (hu : e ≠ 'u') : stringRest? ('\\' :: e :: rest) =
      (stringRest? rest).map (StringRest.cons c) := by
  rw [stringRest?.eq_5 e rest (fun _ _ _ _ _ _ _ _ _ h => absurd h hu)
    (fun _ _ _ _ _ h => absurd h hu), he]

/-- A character that needs no escape. -/
theorem stringRest?_plain (rest : List Char) (hquote : c ≠ '"') (hslash : c ≠ '\\')
    (hprints : ¬ c.toNat < 0x20) :
    stringRest? (c :: rest) = (stringRest? rest).map (StringRest.cons c) := by
  rw [stringRest?.eq_6 c rest hquote (fun _ _ _ _ _ _ _ _ _ h => absurd h hslash)
    (fun _ _ _ _ _ h => absurd h hslash) (fun _ _ h => absurd h hslash), if_neg hprints]

/-- The form of a character inside a string stands for that character. -/
theorem stringRest?_escape (c : Char) (rest : List Char) :
    stringRest? (escape c ++ rest) = (stringRest? rest).map (StringRest.cons c) := by
  unfold escape
  -- seven characters have an escape of one letter
  iterate 7
    split
    · subst c
      exact stringRest?_letter rest rfl (by decide)
  split
  · rename_i hcontrol
    have hbyte : c.toNat < 256 := by omega
    have hsmall : c.toNat < 0xd800 := by omega
    refine (stringRest?_fourDigits rest (Hexadecimal.number?_zero_zero hbyte) hsmall).trans ?_
    rw [Char.ofNat_toNat]
  · rename_i hquote hslash _ _ _ _ _ hprints
    exact stringRest?_plain rest hquote hslash hprints

/-- **An escaped string** is read up to its closing quote. -/
theorem stringRest?_flatMap_escape (text rest : List Char) :
    stringRest? (text.flatMap escape ++ '"' :: rest) = some (some text, rest) := by
  induction text with
  | nil => rfl
  | cons c text ih =>
    rw [List.flatMap_cons, List.append_assoc, stringRest?_escape, ih]
    rfl

end Strings

section Numbers

/-- Text that does not go on with a number. -/
def StopsNumber (rest : List Char) : Prop :=
  ∀ c ∈ rest.head?, c.isDigit = false ∧ c ≠ '.' ∧ c ≠ 'e' ∧ c ≠ 'E'

theorem digits?_append {digits rest : List Char} (hne : digits ≠ [])
    (hdigits : ∀ c ∈ digits, c.isDigit = true) (hrest : StopsNumber rest) :
    digits? (digits ++ rest) = some (digits, rest) := by
  have hstop : rest.takeWhile Char.isDigit = [] ∧ rest.dropWhile Char.isDigit = rest := by
    cases rest with
    | nil => exact ⟨rfl, rfl⟩
    | cons c rest =>
      have hc : c.isDigit = false := (hrest c rfl).1
      simp [hc]
  unfold digits?
  rw [List.span_eq_takeWhile_dropWhile, List.takeWhile_append_of_pos hdigits,
    List.dropWhile_append_of_pos hdigits, hstop.1, hstop.2, List.append_nil]
  simp [hne]

/-- The digits of a number start with a zero only if that is all of them. -/
theorem head?_toDigits {n : Nat} (hpos : 0 < n) : (Nat.toDigits 10 n).head? ≠ some '0' := by
  induction n using Nat.strongRecOn with
  | ind n ih =>
    by_cases hsmall : n < 10
    · have hall : ∀ n < 10, 0 < n → (Nat.toDigits 10 n).head? ≠ some '0' := by decide
      exact hall n hsmall hpos
    · have hless : n / 10 < n := Nat.div_lt_self hpos (by decide)
      have hpos' : 0 < n / 10 := Nat.div_pos (by omega) (by decide)
      rw [Nat.toDigits_of_base_le (by decide) (by omega), List.head?_append]
      cases hhead : (Nat.toDigits 10 (n / 10)).head? with
      | none => exact absurd (List.head?_eq_none_iff.1 hhead) Nat.toDigits_ne_nil
      | some c =>
        rw [Option.some_or, ← hhead]
        exact ih _ hless hpos'

theorem whole?_toDigits (n : Nat) {rest : List Char} (hrest : StopsNumber rest) :
    whole? (Nat.toDigits 10 n ++ rest) = some (Nat.toDigits 10 n, rest) := by
  unfold whole?
  rw [digits?_append Nat.toDigits_ne_nil
    (fun c hc => Nat.isDigit_of_mem_toDigits (by decide) (by decide) hc) hrest]
  split
  · rename_i c digits _ heq
    -- more digits after a zero are not the digits of a number
    have hdigits : Nat.toDigits 10 n = '0' :: c :: digits := (Prod.mk.inj (Option.some.inj heq)).1
    rcases Nat.eq_zero_or_pos n with rfl | hpos
    · cases hdigits
    · exact absurd (by rw [hdigits]; rfl) (head?_toDigits hpos)
  · rfl

theorem fraction?_stop {rest : List Char} (h : StopsNumber rest) :
    fraction? rest = some ([], rest) := by
  unfold fraction?
  split
  · exact absurd rfl (h '.' rfl).2.1
  · rfl

theorem exponent?_stop {rest : List Char} (h : StopsNumber rest) :
    exponent? rest = some ([], rest) := by
  unfold exponent?
  split
  · exact absurd rfl (h 'e' rfl).2.2.1
  · exact absurd rfl (h 'E' rfl).2.2.2
  · rfl

/-- The digits of a number, after a sign or not, are read as the token of that number. -/
theorem number?_toDigits (negative : Bool) (n : Nat) {rest : List Char}
    (hrest : StopsNumber rest) : number? negative (Nat.toDigits 10 n ++ rest) =
      some (ofParts negative (Nat.toDigits 10 n) [] [], rest) := by
  unfold number?
  rw [whole?_toDigits n hrest, Option.bind_eq_bind, Option.bind_some]
  simp [fraction?_stop hrest, exponent?_stop hrest]

/-- A minus begins a negative number. -/
theorem next?_minus (rest : List Char) : next? ('-' :: rest) = number? true rest := rfl

/-- A digit begins a number and no other token. -/
theorem next?_digit {c : Char} (rest : List Char) (hc : c.isDigit = true) :
    next? (c :: rest) = number? false (c :: rest) := by
  have hne : ∀ other : Char, other.isDigit = false → c ≠ other := by
    rintro other hother rfl
    rw [hc] at hother
    cases hother
  generalize htext : c :: rest = text
  unfold next?
  split
  case h_1 => cases htext
  case h_13 => rfl
  -- every other token begins with another character
  all_goals
    have heq := (List.cons.inj htext).1
    exact absurd heq (hne _ (by decide))

/-- **An integer** is read up to its last digit. -/
theorem next?_integerChars (n : Int) {rest : List Char} (hrest : StopsNumber rest) :
    next? (integerChars n ++ rest) = some (integer n, rest) := by
  cases n with
  | ofNat n =>
    unfold integerChars
    obtain ⟨c, digits, hdigits⟩ := List.exists_cons_of_ne_nil (Nat.toDigits_ne_nil (n := n) (b := 10))
    have hc : c.isDigit = true :=
      Nat.isDigit_of_mem_toDigits (n := n) (b := 10) (by decide) (by decide) (by simp [hdigits])
    dsimp only
    rw [hdigits, List.cons_append, next?_digit _ hc, ← List.cons_append, ← hdigits,
      number?_toDigits false n hrest]
    simp [ofParts, Nat.ofDigitChars_ten_toDigits]
  | negSucc n =>
    have hdigits : Nat.toDigits 10 (n + 1) ≠ ['0'] := fun heq =>
      head?_toDigits (Nat.succ_pos n) (by rw [heq]; rfl)
    unfold integerChars
    dsimp only
    rw [List.cons_append, next?_minus, number?_toDigits true (n + 1) hrest]
    simp [ofParts, Nat.ofDigitChars_ten_toDigits, hdigits, Int.negSucc_eq]

end Numbers

section Lexing

/-- A quote begins a string. -/
theorem next?_quote (rest : List Char) :
    next? ('"' :: rest) =
      (stringRest? rest).map fun (text, rest) => (string (text.map String.ofList), rest) :=
  rfl

/-- The text has these tokens, whatever limit its length allows. -/
def Lexes (cs : List Char) (ts : List JsonToken) : Prop :=
  ∀ limit, cs.length ≤ limit → upTo? limit cs = some ts

variable {cs rest : List Char} {t : JsonToken} {ts : List JsonToken}

theorem Lexes.nil : Lexes [] [] := by
  intro limit _
  cases limit <;> rfl

theorem Lexes.cons {c : Char} (front : List Char)
    (hnext : next? (c :: (front ++ rest)) = some (t, rest)) (hblank : isBlank c = false)
    (h : Lexes rest ts) : Lexes (c :: (front ++ rest)) (t :: ts) := by
  intro limit hlimit
  rw [List.length_cons, List.length_append] at hlimit
  cases limit with
  | zero => omega
  | succ limit =>
    have hrest := h limit (by omega)
    have hdrop : (c :: (front ++ rest)).dropWhile isBlank = c :: (front ++ rest) := by simp [hblank]
    rw [upTo?.eq_def]
    simp only [hdrop, hnext, Option.bind_eq_bind, Option.bind_some, hrest]
    rfl

theorem Lexes.ofChars? (h : Lexes cs ts) : ofChars? cs = some ts := h cs.length (Nat.le_refl _)

theorem exists_integerChars (n : Int) :
    ∃ c front, integerChars n = c :: front ∧ isBlank c = false := by
  cases n with
  | ofNat n =>
    obtain ⟨c, front, hdigits⟩ := List.exists_cons_of_ne_nil (Nat.toDigits_ne_nil (n := n) (b := 10))
    have hc : c.isDigit = true :=
      Nat.isDigit_of_mem_toDigits (n := n) (b := 10) (by decide) (by decide) (by simp [hdigits])
    refine ⟨c, front, hdigits, Bool.eq_false_iff.2 fun hblank => ?_⟩
    simp only [isBlank, Bool.or_eq_true, decide_eq_true_eq] at hblank
    rcases hblank with ((rfl | rfl) | rfl) | rfl <;> exact absurd hc (by decide)
  | negSucc n => exact ⟨'-', _, rfl, rfl⟩

/-- **An integer in front of a text** that does not go on with a number is its first token. -/
theorem Lexes.integer (n : Int) (hstop : StopsNumber rest) (h : Lexes rest ts) :
    Lexes ((integer n).chars ++ rest) (integer n :: ts) := by
  have hnext := next?_integerChars n hstop
  obtain ⟨c, front, hchars, hblank⟩ := exists_integerChars n
  have hwritten : (JsonToken.integer n).chars = c :: front := hchars
  rw [hchars] at hnext
  rw [hwritten]
  exact Lexes.cons front hnext hblank h

/-- Whether a token is a number. -/
def isNumber : JsonToken → Bool
  | .integer _ | decimal _ => true
  | _ => false

/-- **Any token but a number in front of a text** is its first token. -/
theorem Lexes.mark (t : JsonToken) (ht : t.isNumber = false) (h : Lexes rest ts) :
    Lexes (t.chars ++ rest) (t :: ts) := by
  cases t with
  | openBrace | closeBrace | openBracket | closeBracket | colon | comma =>
    exact Lexes.cons [] rfl rfl h
  | null => exact Lexes.cons ['u', 'l', 'l'] rfl rfl h
  | bool b =>
    cases b with
    | false => exact Lexes.cons ['a', 'l', 's', 'e'] rfl rfl h
    | true => exact Lexes.cons ['r', 'u', 'e'] rfl rfl h
  | integer n => cases ht
  | decimal literal => cases ht
  | string text =>
    cases text with
    | none =>
      -- half of a surrogate pair makes a string without a text
      exact Lexes.cons ['\\', 'u', 'd', '8', '0', '0', '"'] rfl rfl h
    | some text =>
      refine Lexes.cons (text.toList.flatMap escape ++ ['"']) ?_ rfl h
      rw [next?_quote, List.append_assoc, List.singleton_append, stringRest?_flatMap_escape]
      simp [String.ofList_toList]

end Lexing

end JsonToken

end QuorumStore
