import QuorumStore.Json.Value
import QuorumStore.Proofs.Json.Tokens

/-!
# Values are read back

The compact text of a value stands for that value, if all its numbers are integers.

* `JsonValue.IsIntegral`: values whose numbers are integers.
* `JsonValue.IsIntegral.lexes`: the text of a value has the tokens of the value.
* `JsonValue.IsIntegral.reads`: the tokens of a value are read as that value.
* `JsonValue.IsIntegral.parse?_render`: **the compact text of a value stands for it.**
-/

namespace QuorumStore

namespace JsonValue

open JsonToken

/-- A value all of whose numbers are integers. -/
inductive IsIntegral : JsonValue → Prop where
  | null : IsIntegral .null
  | bool (b : Bool) : IsIntegral (.bool b)
  | integer (n : Int) : IsIntegral (.integer n)
  | string (text : Option String) : IsIntegral (.string text)
  | array {items : List JsonValue} (h : ∀ v ∈ items, IsIntegral v) : IsIntegral (.array items)
  | object {members : List (Option String × JsonValue)}
      (h : ∀ member ∈ members, IsIntegral member.2) : IsIntegral (.object members)

theorem itemTokens_cons (v : JsonValue) (items : List JsonValue) :
    itemTokens (v :: items) = .comma :: (v.tokens ++ itemTokens items) := rfl

theorem memberTokens_cons (key : Option String) (v : JsonValue)
    (members : List (Option String × JsonValue)) : memberTokens ((key, v) :: members) =
      .comma :: .string key :: .colon :: (v.tokens ++ memberTokens members) := rfl

theorem tokens_array_cons (v : JsonValue) (items : List JsonValue) :
    (array (v :: items)).tokens = .openBracket :: (v.tokens ++ itemTokens items) := rfl

section Lexing

variable {v : JsonValue} {items : List JsonValue} {members : List (Option String × JsonValue)}
  {rest : List Char} {ts : List JsonToken}

/-- The text of a value is read as its tokens, in front of any text that does not go on with a
number. -/
def LexesBefore (v : JsonValue) : Prop :=
  ∀ {rest ts}, StopsNumber rest → Lexes rest ts →
    Lexes (v.tokens.flatMap chars ++ rest) (v.tokens ++ ts)

/-- What follows a value in an array or an object does not go on with a number. -/
theorem stopsNumber_itemTokens (items : List JsonValue) (rest : List Char) :
    StopsNumber ((itemTokens items).flatMap chars ++ rest) := by
  cases items <;> rintro _ ⟨⟩ <;> decide

theorem stopsNumber_memberTokens (members : List (Option String × JsonValue)) (rest : List Char) :
    StopsNumber ((memberTokens members).flatMap chars ++ rest) := by
  cases members <;> rintro _ ⟨⟩ <;> decide

/-- The items of an array after its first, and its end. -/
theorem lexes_itemTokens (h : ∀ v ∈ items, LexesBefore v) (hrest : Lexes rest ts) :
    Lexes ((itemTokens items).flatMap chars ++ rest) (itemTokens items ++ ts) := by
  induction items with
  | nil => exact hrest.mark .closeBracket rfl
  | cons v items ih =>
    have hitems := ih fun w hw => h w (List.mem_cons_of_mem v hw)
    have hv := h v List.mem_cons_self (stopsNumber_itemTokens items rest) hitems
    have hcomma := hv.mark .comma rfl
    simp only [itemTokens_cons, List.flatMap_cons, List.flatMap_append, List.cons_append,
      List.append_assoc]
    exact hcomma

/-- A key and its value in front of the other members of an object, and its end. -/
theorem lexes_member {key : Option String} (h : LexesBefore v)
    (hrest : Lexes ((memberTokens members).flatMap chars ++ rest) (memberTokens members ++ ts)) :
    Lexes ((.string key :: .colon :: (v.tokens ++ memberTokens members)).flatMap chars ++ rest)
      (.string key :: .colon :: (v.tokens ++ memberTokens members) ++ ts) := by
  have hv := h (stopsNumber_memberTokens members rest) hrest
  have hkey := (hv.mark .colon rfl).mark (.string key) rfl
  simp only [List.flatMap_cons, List.flatMap_append, List.cons_append, List.append_assoc]
  exact hkey

/-- The members of an object after its first, and its end. -/
theorem lexes_memberTokens (h : ∀ member ∈ members, LexesBefore member.2)
    (hrest : Lexes rest ts) :
    Lexes ((memberTokens members).flatMap chars ++ rest) (memberTokens members ++ ts) := by
  induction members with
  | nil => exact hrest.mark .closeBrace rfl
  | cons member members ih =>
    have hmembers := ih fun other hother => h other (List.mem_cons_of_mem _ hother)
    exact (lexes_member (h member List.mem_cons_self) hmembers).mark .comma rfl

theorem lexesBefore_of_token {t : JsonToken} (hv : v.tokens = [t])
    (ht : ∀ {rest ts}, StopsNumber rest → Lexes rest ts → Lexes (t.chars ++ rest) (t :: ts)) :
    LexesBefore v := by
  intro rest ts hstop hrest
  rw [hv, List.flatMap_cons, List.flatMap_nil, List.append_nil]
  exact ht hstop hrest

/-- **The text of a value has the tokens of the value.** -/
theorem IsIntegral.lexes (h : v.IsIntegral) : LexesBefore v := by
  induction h with
  | null => exact lexesBefore_of_token rfl fun _ hrest => hrest.mark _ rfl
  | bool b => exact lexesBefore_of_token rfl fun _ hrest => hrest.mark _ rfl
  | integer n => exact lexesBefore_of_token rfl fun hstop hrest => hrest.integer n hstop
  | string text => exact lexesBefore_of_token rfl fun _ hrest => hrest.mark _ rfl
  | @array items _ ih =>
    intro rest ts _ hrest
    cases items with
    | nil => exact (hrest.mark .closeBracket rfl).mark .openBracket rfl
    | cons v items =>
      have hitems := lexes_itemTokens (fun w hw => ih w (List.mem_cons_of_mem v hw)) hrest
      have hv := ih v List.mem_cons_self (stopsNumber_itemTokens items rest) hitems
      have hopen := hv.mark .openBracket rfl
      simp only [tokens_array_cons, List.flatMap_cons, List.flatMap_append, List.cons_append,
        List.append_assoc]
      exact hopen
  | @object members _ ih =>
    intro rest ts _ hrest
    cases members with
    | nil => exact (hrest.mark .closeBrace rfl).mark .openBrace rfl
    | cons member members =>
      have hmembers :=
        lexes_memberTokens (fun other hother => ih other (List.mem_cons_of_mem _ hother)) hrest
      exact (lexes_member (ih member List.mem_cons_self) hmembers).mark .openBrace rfl

end Lexing

section Reading

/-- From where a value is to come, its tokens lead to where it is complete. -/
def ReadsAs (v : JsonValue) : Prop :=
  ∀ opened frames (ts : List JsonToken),
    (v.tokens ++ ts).foldlM JsonReading.step (.value opened frames) =
      ts.foldlM JsonReading.step (.complete v frames)

variable {v : JsonValue}

theorem reads_itemTokens {items : List JsonValue} (h : ∀ w ∈ items, ReadsAs w)
    (before : List JsonValue) (frames : List JsonFrame) (ts : List JsonToken) :
    (itemTokens items ++ ts).foldlM JsonReading.step (.complete v (.array before :: frames)) =
      ts.foldlM JsonReading.step (.complete (.array (before ++ v :: items)) frames) := by
  induction items generalizing v before with
  | nil => rfl
  | cons w items ih =>
    have hw := h w List.mem_cons_self false (.array (before ++ [v]) :: frames)
      (itemTokens items ++ ts)
    have hitems := ih (fun other hother => h other (List.mem_cons_of_mem w hother)) (v := w)
      (before ++ [v])
    rw [List.append_assoc, List.singleton_append] at hitems
    rw [← hitems, ← hw]
    simp only [itemTokens_cons, List.cons_append, List.append_assoc]
    rfl

theorem reads_memberTokens {members : List (Option String × JsonValue)}
    (h : ∀ member ∈ members, ReadsAs member.2) (before : List (Option String × JsonValue))
    (key : Option String) (frames : List JsonFrame) (ts : List JsonToken) :
    (memberTokens members ++ ts).foldlM JsonReading.step (.complete v (.object before key :: frames)) =
      ts.foldlM JsonReading.step (.complete (.object (before ++ (key, v) :: members)) frames) := by
  induction members generalizing v key before with
  | nil => rfl
  | cons member members ih =>
    obtain ⟨key', w⟩ := member
    have hw := h (key', w) List.mem_cons_self false (.object (before ++ [(key, v)]) key' :: frames)
      (memberTokens members ++ ts)
    have hmembers := ih (fun other hother => h other (List.mem_cons_of_mem _ hother)) (v := w)
      (before ++ [(key, v)]) key'
    rw [List.append_assoc, List.singleton_append] at hmembers
    rw [← hmembers, ← hw]
    simp only [memberTokens_cons, List.cons_append, List.append_assoc]
    rfl

/-- Where a value is to come, any token but a closing bracket is taken for its first. -/
theorem reads_first {opened : Bool} {frames : List JsonFrame} {t : JsonToken}
    {ts : List JsonToken} {reading : JsonReading} (ht : t ≠ .closeBracket)
    (hfirst : JsonReading.stepValue frames t = some reading) :
    (t :: ts).foldlM JsonReading.step (.value opened frames) =
      ts.foldlM JsonReading.step reading := by
  have hstep : JsonReading.step (.value opened frames) t = some reading := by
    rw [← hfirst]
    unfold JsonReading.step
    split <;> simp_all
  rw [List.foldlM_cons, hstep, Option.bind_eq_bind, Option.bind_some]

/-- **The tokens of a value are read as that value.** -/
theorem IsIntegral.reads (h : v.IsIntegral) : ReadsAs v := by
  induction h with
  | null | bool b | integer n | string text => exact fun _ _ _ => reads_first (by simp) rfl
  | @array items _ ih =>
    intro opened frames ts
    cases items with
    | nil => exact reads_first (t := .openBracket) (by simp) rfl
    | cons v items =>
      have hopen : (tokens (.array (v :: items)) ++ ts).foldlM JsonReading.step (.value opened frames) =
          (v.tokens ++ itemTokens items ++ ts).foldlM JsonReading.step
            (.value true (.array [] :: frames)) :=
        reads_first (t := .openBracket) (by simp) rfl
      have hv := ih v List.mem_cons_self true (.array [] :: frames) (itemTokens items ++ ts)
      rw [hopen, List.append_assoc, hv]
      exact reads_itemTokens (fun w hw => ih w (List.mem_cons_of_mem v hw)) [] frames ts
  | @object members _ ih =>
    intro opened frames ts
    cases members with
    | nil => exact reads_first (t := .openBrace) (by simp) rfl
    | cons member members =>
      obtain ⟨key, v⟩ := member
      have hopen : (tokens (.object ((key, v) :: members)) ++ ts).foldlM JsonReading.step
            (.value opened frames) =
          (v.tokens ++ memberTokens members ++ ts).foldlM JsonReading.step
            (.value false (.object [] key :: frames)) :=
        reads_first (t := .openBrace) (by simp) rfl
      have hv := ih (key, v) List.mem_cons_self false (.object [] key :: frames)
        (memberTokens members ++ ts)
      rw [hopen, List.append_assoc, hv]
      exact reads_memberTokens (fun other hother => ih other (List.mem_cons_of_mem _ hother)) [] key
        frames ts

end Reading

/-- **The compact text of a value stands for it.** -/
theorem IsIntegral.parse?_render {v : JsonValue} (h : v.IsIntegral) : parse? v.render = some v := by
  have hstop : StopsNumber [] := by rintro _ ⟨⟩
  have hlexes := h.lexes hstop Lexes.nil
  rw [List.append_nil, List.append_nil] at hlexes
  have hreads := h.reads false [] []
  rw [List.append_nil] at hreads
  unfold parse? ofTokens? render JsonReading.start
  rw [String.toList_ofList, hlexes.ofChars?, Option.bind_eq_bind, Option.bind_some, hreads]
  rfl

end JsonValue

end QuorumStore
