import Mathlib.Data.List.TakeWhile
import Sequencer.Script.Parser

/-!
# What readers take and leave

Two views of a reader that forget its journal.

* `Reader.Ensures` — whatever is read is a stretch of the text with a given
  property; the property may speak of the offset before it and the text behind it.
* `Reader.Takes`, `Reader.Fails` — the reader takes exactly a given stretch off a
  text, or nothing can be read there.

Each combinator has one lemma for each view, so a grammar is followed in either
direction without opening a reader.
-/

namespace Sequencer.Script

/-! ## Stretches of text -/

/-- No character of the class comes next. -/
def Stops (ok : Char → Bool) (text : List Char) : Prop :=
  ∀ c ∈ text.head?, ok c = false

@[simp] theorem stops_nil (ok : Char → Bool) : Stops ok [] := by
  simp [Stops]

@[simp] theorem stops_cons {ok : Char → Bool} {c : Char} {text : List Char} :
    Stops ok (c :: text) ↔ ok c = false := by
  simp [Stops]

/-- What starts with a character of a class does not start with one outside it. -/
theorem head_cons_ne {ok : Char → Bool} {c d : Char} (inside : ok c = true) (outside : ok d = false)
    (text : List Char) : (c :: text).head? ≠ some d := by
  intro same
  obtain rfl : c = d := by simpa using same
  rw [inside] at outside
  cases outside

theorem takeWhile_append_of_stops {ok : Char → Bool} {text rest : List Char}
    (all : ∀ c ∈ text, ok c = true) (stops : Stops ok rest) :
    (text ++ rest).takeWhile ok = text := by
  rw [List.takeWhile_append_of_pos all]
  cases rest with
  | nil => simp
  | cons c rest => simp [stops_cons.mp stops]

theorem dropWhile_append_of_stops {ok : Char → Bool} {text rest : List Char}
    (all : ∀ c ∈ text, ok c = true) (stops : Stops ok rest) :
    (text ++ rest).dropWhile ok = rest := by
  rw [List.dropWhile_append_of_pos all]
  cases rest with
  | nil => rfl
  | cons c rest => simp [stops_cons.mp stops]

/-- A text splits in one way into a run of a class and the rest. -/
theorem append_inj_of_stops {ok : Char → Bool} {text text' rest rest' : List Char}
    (all : ∀ c ∈ text, ok c = true) (all' : ∀ c ∈ text', ok c = true) (stops : Stops ok rest)
    (stops' : Stops ok rest') (same : text ++ rest = text' ++ rest') :
    text = text' ∧ rest = rest' := by
  constructor
  · rw [← takeWhile_append_of_stops all stops, same, takeWhile_append_of_stops all' stops']
  · rw [← dropWhile_append_of_stops all stops, same, dropWhile_append_of_stops all' stops']

theorem stops_dropWhile (ok : Char → Bool) (text : List Char) : Stops ok (text.dropWhile ok) := by
  intro c head
  simpa [Option.mem_def.mp head] using List.head?_dropWhile_not ok text

@[simp] theorem utf8Length_nil : utf8Length [] = 0 :=
  rfl

theorem utf8Length_append (first second : List Char) :
    utf8Length (first ++ second) = utf8Length first + utf8Length second := by
  -- the sizes are added up from the left, onto those before them
  have shift : ∀ (text : List Char) (n : Nat),
      text.foldl (fun n c => n + c.utf8Size) n = n + utf8Length text := by
    intro text
    induction text with
    | nil => intro n; rfl
    | cons c text ih =>
      intro n
      have whole : utf8Length (c :: text) = 0 + c.utf8Size + utf8Length text := ih (0 + c.utf8Size)
      rw [List.foldl_cons, ih, whole]
      omega
  rw [utf8Length, List.foldl_append, shift]
  rfl

theorem utf8Length_cons (c : Char) (text : List Char) :
    utf8Length (c :: text) = c.utf8Size + utf8Length text := by
  have split := utf8Length_append [c] text
  simpa [utf8Length] using split

namespace Reader

variable {α β : Type}

/-- Whatever is read is a stretch of the text for which the property holds. -/
def Ensures (reader : Reader α) (post : Nat → List Char → List Char → α → Prop) : Prop :=
  ∀ ⦃cursor value next⦄, (reader cursor).result = some (value, next) →
    ∃ text, cursor.rest = text ++ next.rest ∧ next.offset = cursor.offset + utf8Length text ∧
      post cursor.offset text next.rest value

/-- Where `text` comes next, it is read as the value, and nothing behind it is. -/
def Takes (reader : Reader α) (offset : Nat) (text rest : List Char) (value : α) : Prop :=
  (reader ⟨text ++ rest, offset⟩).result = some (value, ⟨rest, offset + utf8Length text⟩)

/-- Nothing is read where the text comes next. -/
def Fails (reader : Reader α) (offset : Nat) (text : List Char) : Prop :=
  (reader ⟨text, offset⟩).result = none

/-! ## What is ensured -/

section Ensures

variable {post post' : Nat → List Char → List Char → α → Prop}

theorem Ensures.mono {reader : Reader α} (ensures : reader.Ensures post)
    (weaker : ∀ offset text rest value,
      post offset text rest value → post' offset text rest value) :
    reader.Ensures post' := by
  intro cursor value next read
  obtain ⟨text, split, reached, holds⟩ := ensures read
  exact ⟨text, split, reached, weaker _ _ _ _ holds⟩

theorem ensures_pure (value : α) :
    (pure value : Reader α).Ensures fun _ text _ found => text = [] ∧ found = value := by
  intro cursor found next read
  cases read
  exact ⟨[], rfl, rfl, rfl, rfl⟩

theorem Ensures.bind {reader : Reader α} {continuation : α → Reader β}
    {after : α → Nat → List Char → List Char → β → Prop} (first : reader.Ensures post)
    (second : ∀ value, (continuation value).Ensures (after value)) :
    (reader >>= continuation).Ensures fun offset text rest value =>
      ∃ found front back, text = front ++ back ∧ post offset front (back ++ rest) found ∧
        after found (offset + utf8Length front) back rest value := by
  intro cursor value last read
  obtain ⟨found, next, readFirst, readSecond⟩ := result_bind_eq_some.mp read
  obtain ⟨front, split, reached, holds⟩ := first readFirst
  obtain ⟨back, split', reached', holds'⟩ := second found readSecond
  rw [split'] at split holds
  rw [reached] at reached' holds'
  refine ⟨front ++ back, by simp [split], ?_, found, front, back, rfl, holds, holds'⟩
  rw [reached', utf8Length_append, Nat.add_assoc]

theorem Ensures.orElse {reader alternative : Reader α} (first : reader.Ensures post)
    (second : alternative.Ensures post') :
    (reader <|> alternative).Ensures fun offset text rest value =>
      post offset text rest value ∨ post' offset text rest value := by
  intro cursor value next read
  rw [result_orElse] at read
  cases found : (reader cursor).result with
  | some result =>
    rw [found] at read
    cases read
    exact first.mono (fun _ _ _ _ holds => Or.inl holds) found
  | none =>
    rw [found] at read
    exact second.mono (fun _ _ _ _ holds => Or.inr holds) read

theorem Ensures.optional {reader : Reader α} (ensures : reader.Ensures post) :
    (optional reader).Ensures fun offset text rest value =>
      (∃ found, value = some found ∧ post offset text rest found) ∨ value = none ∧ text = [] := by
  apply ((ensures.bind fun found => ensures_pure (some found)).orElse (ensures_pure none)).mono
  rintro offset text rest value (⟨found, front, back, rfl, holds, rfl, rfl⟩ | ⟨rfl, rfl⟩)
  · exact .inl ⟨found, rfl, by simpa using holds⟩
  · exact .inr ⟨rfl, rfl⟩

theorem ensures_expect (c : Char) : (expect c).Ensures fun _ text _ _ => text = [c] := by
  rintro ⟨_ | ⟨d, rest⟩, offset⟩ value next read
  · cases read
  · simp only [expect, Cursor.next?] at read
    split at read
    next same =>
      cases read
      exact ⟨[d], rfl, by simp [utf8Length], by rw [same]⟩
    next => cases read

theorem ensures_satisfy (ok : Char → Bool) :
    (satisfy ok).Ensures fun _ text _ value => text = [value] ∧ ok value = true := by
  rintro ⟨_ | ⟨d, rest⟩, offset⟩ value next read
  · cases read
  · simp only [satisfy, Cursor.next?] at read
    split at read
    next inClass =>
      cases read
      exact ⟨[d], rfl, by simp [utf8Length], rfl, inClass⟩
    next => cases read

theorem ensures_skipWhile (ok : Char → Bool) (cursor : Cursor) :
    cursor.rest = cursor.rest.takeWhile ok ++ (cursor.skipWhile ok).rest ∧
      (cursor.skipWhile ok).offset = cursor.offset + utf8Length (cursor.rest.takeWhile ok) ∧
      (∀ c ∈ cursor.rest.takeWhile ok, ok c = true) ∧ Stops ok (cursor.skipWhile ok).rest :=
  ⟨List.takeWhile_append_dropWhile.symm, rfl, fun _ member => (List.mem_takeWhile_imp member),
    stops_dropWhile ok cursor.rest⟩

theorem ensures_takeWhile (ok : Char → Bool) :
    (takeWhile ok).Ensures fun _ text _ value => text = value ∧ ∀ c ∈ value, ok c = true := by
  intro cursor value next read
  cases read
  obtain ⟨split, reached, all, -⟩ := ensures_skipWhile ok cursor
  exact ⟨_, split, reached, rfl, all⟩

theorem ensures_takeWhile1 (ok : Char → Bool) :
    (takeWhile1 ok).Ensures fun _ text _ value =>
      text = value ∧ value ≠ [] ∧ ∀ c ∈ value, ok c = true := by
  apply ((ensures_satisfy ok).bind fun first =>
    (ensures_takeWhile ok).bind fun rest => ensures_pure _).mono
  rintro offset text rest value
    ⟨c, _, _, rfl, ⟨rfl, head⟩, run, _, _, rfl, ⟨rfl, all⟩, rfl, rfl⟩
  refine ⟨by simp, by simp, ?_⟩
  simpa [head] using all

end Ensures

/-! ## What is taken -/

section Takes

variable {offset : Nat} {text rest : List Char}

theorem takes_pure (value : α) (offset : Nat) (rest : List Char) :
    (pure value : Reader α).Takes offset [] rest value :=
  rfl

theorem Takes.bind {reader : Reader α} {continuation : α → Reader β} {front back : List Char}
    {found : α} {value : β} (first : reader.Takes offset front (back ++ rest) found)
    (second : (continuation found).Takes (offset + utf8Length front) back rest value) :
    (reader >>= continuation).Takes offset (front ++ back) rest value := by
  refine result_bind_eq_some.mpr ⟨found, ⟨back ++ rest, offset + utf8Length front⟩, ?_, ?_⟩
  · rw [List.append_assoc]
    exact first
  · rw [utf8Length_append, ← Nat.add_assoc]
    exact second

/-- A reader that takes nothing may be passed over. -/
theorem Takes.bind_nil {reader : Reader α} {continuation : α → Reader β} {found : α} {value : β}
    (first : reader.Takes offset [] (text ++ rest) found)
    (second : (continuation found).Takes offset text rest value) :
    (reader >>= continuation).Takes offset text rest value :=
  Takes.bind first second

/-- What comes behind the last reader that takes something may be passed over as well. -/
theorem Takes.bind_done {reader : Reader α} {continuation : α → Reader β} {found : α} {value : β}
    (first : reader.Takes offset text rest found)
    (second : (continuation found).Takes (offset + utf8Length text) [] rest value) :
    (reader >>= continuation).Takes offset text rest value :=
  result_bind_eq_some.mpr ⟨found, _, first, second⟩

theorem Takes.bind_pure {reader : Reader α} {found : α} (give : α → β)
    (first : reader.Takes offset text rest found) :
    (reader >>= fun value => pure (give value)).Takes offset text rest (give found) :=
  first.bind_done (takes_pure _ _ rest)

theorem Fails.bind {reader : Reader α} (continuation : α → Reader β)
    (fails : reader.Fails offset text) : (reader >>= continuation).Fails offset text := by
  unfold Fails at fails ⊢
  cases read : ((reader >>= continuation) ⟨text, offset⟩).result with
  | none => rfl
  | some result =>
    obtain ⟨_, _, first, _⟩ := result_bind_eq_some.mp read
    rw [fails] at first
    cases first

theorem Takes.bind_fails {reader : Reader α} {continuation : α → Reader β} {front back : List Char}
    {found : α} (first : reader.Takes offset front back found)
    (second : (continuation found).Fails (offset + utf8Length front) back) :
    (reader >>= continuation).Fails offset (front ++ back) := by
  unfold Fails at second ⊢
  cases read : ((reader >>= continuation) ⟨front ++ back, offset⟩).result with
  | none => rfl
  | some result =>
    obtain ⟨_, _, readFirst, readSecond⟩ := result_bind_eq_some.mp read
    cases first.symm.trans readFirst
    rw [second] at readSecond
    cases readSecond

theorem Takes.orElse {reader : Reader α} (alternative : Reader α) {value : α}
    (takes : reader.Takes offset text rest value) :
    (reader <|> alternative).Takes offset text rest value := by
  rw [Takes, result_orElse, takes]
  rfl

theorem Fails.orElse_takes {reader alternative : Reader α} {value : α}
    (fails : reader.Fails offset (text ++ rest)) (takes : alternative.Takes offset text rest value) :
    (reader <|> alternative).Takes offset text rest value := by
  rw [Takes, result_orElse, fails]
  exact takes

theorem Fails.orElse {reader alternative : Reader α} (first : reader.Fails offset text)
    (second : alternative.Fails offset text) : (reader <|> alternative).Fails offset text := by
  rw [Fails, result_orElse, first]
  exact second

theorem Takes.optional {reader : Reader α} {value : α}
    (takes : reader.Takes offset text rest value) :
    (optional reader).Takes offset text rest (some value) :=
  Takes.orElse _ (takes.bind_pure some)

theorem Fails.optional {reader : Reader α} (fails : reader.Fails offset rest) :
    (optional reader).Takes offset [] rest none :=
  Fails.orElse_takes (fails.bind _) (takes_pure none offset rest)

/-- Nothing is read by choice only where the reader fails. -/
theorem Ensures.optional_or_fails {post : Nat → List Char → List Char → α → Prop}
    {reader : Reader α} (ensures : reader.Ensures post) :
    (Reader.optional reader).Ensures fun offset text rest value =>
      (∃ found, value = some found ∧ post offset text rest found) ∨
        value = none ∧ text = [] ∧ reader.Fails offset rest := by
  intro cursor value next read
  rw [Reader.optional, result_orElse] at read
  cases found : (reader cursor).result with
  | some result =>
    obtain ⟨first, last⟩ := result
    have taken : ((some <$> reader : Reader (Option α)) cursor).result = some (some first, last) :=
      result_bind_eq_some.mpr ⟨first, last, found, rfl⟩
    rw [taken] at read
    cases read
    obtain ⟨text, split, reached, holds⟩ := ensures found
    exact ⟨text, split, reached, .inl ⟨first, rfl, holds⟩⟩
  | none =>
    have fails : ((some <$> reader : Reader (Option α)) cursor).result = none :=
      Fails.bind (fun first => pure (some first)) found
    rw [fails] at read
    cases read
    exact ⟨[], rfl, rfl, .inr ⟨rfl, rfl, found⟩⟩

theorem takes_expect (c : Char) (offset : Nat) (rest : List Char) :
    (expect c).Takes offset [c] rest () := by
  simp [Takes, expect, Cursor.next?, utf8Length]

theorem fails_expect {c : Char} (offset : Nat) (other : text.head? ≠ some c) :
    (expect c).Fails offset text := by
  cases text with
  | nil => rfl
  | cons d text =>
    have differ : d ≠ c := by simpa using other
    simp [Fails, expect, Cursor.next?, differ, fail]

theorem takes_satisfy {ok : Char → Bool} {c : Char} (inClass : ok c = true) (offset : Nat)
    (rest : List Char) : (satisfy ok).Takes offset [c] rest c := by
  simp [Takes, satisfy, Cursor.next?, inClass, utf8Length]

theorem fails_satisfy {ok : Char → Bool} (offset : Nat) (stops : Stops ok text) :
    (satisfy ok).Fails offset text := by
  cases text with
  | nil => rfl
  | cons d text => simp [Fails, satisfy, Cursor.next?, stops_cons.mp stops, fail]

theorem skipWhile_append {ok : Char → Bool} (offset : Nat) (all : ∀ c ∈ text, ok c = true)
    (stops : Stops ok rest) :
    Cursor.skipWhile ok ⟨text ++ rest, offset⟩ = ⟨rest, offset + utf8Length text⟩ := by
  simp only [Cursor.skipWhile, takeWhile_append_of_stops all stops,
    dropWhile_append_of_stops all stops]

theorem takes_takeWhile {ok : Char → Bool} (offset : Nat) (all : ∀ c ∈ text, ok c = true)
    (stops : Stops ok rest) : (takeWhile ok).Takes offset text rest text := by
  simp only [Takes, takeWhile, skipWhile_append offset all stops,
    takeWhile_append_of_stops all stops]

theorem takes_takeWhile1 {ok : Char → Bool} (offset : Nat) (some : text ≠ [])
    (all : ∀ c ∈ text, ok c = true) (stops : Stops ok rest) :
    (takeWhile1 ok).Takes offset text rest text := by
  obtain ⟨c, tail, rfl⟩ := List.exists_cons_of_ne_nil some
  have head := takes_satisfy (all c List.mem_cons_self) offset (tail ++ rest)
  have run := takes_takeWhile (offset + utf8Length [c])
    (fun d member => all d (List.mem_cons_of_mem c member)) stops
  exact Takes.bind head (run.bind_pure (c :: ·))

theorem fails_takeWhile1 {ok : Char → Bool} (offset : Nat) (stops : Stops ok text) :
    (takeWhile1 ok).Fails offset text :=
  (fails_satisfy offset stops).bind _

end Takes

/-! ## Repetition -/

/-- Stretches with a property, one behind the other. -/
inductive Repeated (post : Nat → List Char → List Char → α → Prop) :
    Nat → List Char → List Char → List α → Prop
  | nil {offset rest} : Repeated post offset [] rest []
  | cons {offset front back rest value values} (head : post offset front (back ++ rest) value)
      (tail : Repeated post (offset + utf8Length front) back rest values) :
      Repeated post offset (front ++ back) rest (value :: values)

/-- Neither the journal nor what has been found so far decides what is read next. -/
theorem result_manyFrom (reader : Reader α) (progress : reader.Consumes) (cursor : Cursor)
    (found : List α) (journal : Journal) :
    (manyFrom reader progress cursor found journal).result =
      (many reader progress cursor).result.map fun (values, last) =>
        (found.reverse ++ values, last) := by
  -- on the length of the rest, which every reading makes shorter
  have general : ∀ (size : Nat) (cursor : Cursor), cursor.rest.length = size →
      ∀ (found : List α) (journal : Journal),
        (manyFrom reader progress cursor found journal).result =
          (many reader progress cursor).result.map fun (values, last) =>
            (found.reverse ++ values, last) := by
    intro size
    induction size using Nat.strongRecOn with
    | ind size ih =>
      rintro cursor rfl found journal
      unfold many
      rw [manyFrom.eq_def reader progress cursor found journal,
        manyFrom.eq_def reader progress cursor [] {}]
      split
      next value next noticed read =>
        have shorter : next.rest.length < cursor.rest.length := progress (by rw [read])
        rw [ih _ shorter next rfl, ih _ shorter next rfl [value]]
        simp [Function.comp_def]
      next noticed read => simp
  exact general _ cursor rfl found journal

theorem many_of_read {reader : Reader α} {progress : reader.Consumes} {cursor next : Cursor}
    {value : α} (read : (reader cursor).result = some (value, next)) :
    (many reader progress cursor).result =
      (many reader progress next).result.map fun (values, last) => (value :: values, last) := by
  rw [many, manyFrom]
  split
  next value' next' noticed read' =>
    rw [read'] at read
    cases read
    rw [result_manyFrom]
    rfl
  next noticed read' =>
    rw [read'] at read
    cases read

theorem Fails.many {reader : Reader α} (progress : reader.Consumes) {offset : Nat}
    {rest : List Char} (fails : reader.Fails offset rest) :
    (many reader progress).Takes offset [] rest [] := by
  unfold Fails at fails
  simp only [Takes, Reader.many, List.nil_append]
  rw [manyFrom]
  split
  next value next noticed read =>
    rw [read] at fails
    cases fails
  next noticed read => rfl

theorem Takes.many_cons {reader : Reader α} {progress : reader.Consumes} {offset : Nat}
    {front back rest : List Char} {value : α} {values : List α}
    (head : reader.Takes offset front (back ++ rest) value)
    (tail : (many reader progress).Takes (offset + utf8Length front) back rest values) :
    (many reader progress).Takes offset (front ++ back) rest (value :: values) := by
  unfold Takes at head tail ⊢
  rw [← List.append_assoc] at head
  rw [many_of_read head, tail, utf8Length_append, Nat.add_assoc]
  rfl

theorem ensures_many {reader : Reader α} {progress : reader.Consumes}
    {post : Nat → List Char → List Char → α → Prop} (ensures : reader.Ensures post) :
    (many reader progress).Ensures (Repeated post) := by
  intro cursor
  induction size : cursor.rest.length using Nat.strongRecOn generalizing cursor with
  | ind size ih =>
    subst size
    intro values last read
    cases found : (reader cursor).result with
    | none =>
      obtain ⟨rest, offset⟩ := cursor
      have none := Fails.many progress found
      rw [Takes, List.nil_append] at none
      cases none.symm.trans read
      exact ⟨[], rfl, rfl, .nil⟩
    | some result =>
      obtain ⟨value, next⟩ := result
      rw [many_of_read found, Option.map_eq_some_iff] at read
      obtain ⟨⟨values', last'⟩, readRest, same⟩ := read
      cases same
      obtain ⟨front, split, reached, head⟩ := ensures found
      obtain ⟨back, split', reached', tail⟩ := ih _ (progress found) rfl readRest
      rw [split'] at split head
      rw [reached] at reached' tail
      refine ⟨front ++ back, by simp [split], ?_, .cons head tail⟩
      rw [reached', utf8Length_append, Nat.add_assoc]

end Reader

end Sequencer.Script
