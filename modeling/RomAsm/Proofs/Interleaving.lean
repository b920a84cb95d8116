import RomAsm.Proofs.Carets
import RomAsm.Proofs.Diagnosis
import RomAsm.Source.Reader

/-!
# Streams that share a cursor

Any number of streams read one source with one cursor, in any order, and may be left in the middle
or end in a failure. A stream then goes on from where another one has left the cursor. Still the
cursor only ever stands between two lexemes or at the end of the text (`Source.Rests`), since each
of its steps begins at such a place. So its line and column are always right, and so are those of
all that is handed out:

* `Source.items_vouched` — the items of a lexeme stand where they say, and the failure behind them
  is about what stands at its place;
* `Stream.next_sound`, `Reader.perform_sound` — one request to a stream, and to a reader, answers so
  and keeps the cursor at such a place;
* `Reader.run_sound` — by induction, any requests do;
* `Reader.positions_right` — what follows for lines, columns and carets.
-/

namespace RomAsm

/-- The characters of an item. -/
def Item.text : Item → List Char
  | lexeme l => l.text.toList
  | symbol x => x.text.toList

/-- Where an item says it stands. -/
def Item.location : Item → Option Location
  | lexeme l => some l.location
  | symbol x => x.location

namespace Source

/-! ### What is handed out -/

/-- An item stands in the text at its location. -/
def Places (s : Source) (x : Item) : Prop :=
  ∃ before rest, s.text = before ++ x.text ++ rest ∧
    x.location = some (s.locate (s.start.position.after before))

/-- **What a problem of reading is about**: a part of the text, and where it begins. -/
inductive Offends (s : Source) : Problem → List Char → Location → Prop where
  /-- What is left of a lexeme behind some signs; the problem names it. -/
  | word {p : Problem} {text : List Char} {l : Location} (hreads : s.Reads text l)
      (hne : text ≠ []) (hword : p.word? = some (String.ofList text)) : s.Offends p text l
  /-- A string literal that is never closed. -/
  | string {c : Cursor} {gap rest : List Char} (hc : s.Visits c)
      (hscan : Gap.scan c.rest = .reached gap ('"' :: rest)) (hopen : closeString rest = none) :
      s.Offends .unterminatedString ('"' :: rest) (s.locate (c.position.after gap))
  /-- A comment that is never closed. -/
  | comment {c : Cursor} {before rest : List Char} (hc : s.Visits c)
      (hscan : Gap.scan c.rest = .unclosed before) (hrest : c.rest = before ++ '/' :: '*' :: rest) :
      s.Offends .unterminatedComment ('/' :: '*' :: rest) (s.locate (c.position.after before))

/-- A failure that is a diagnostic is about a part of the text and points at it. -/
def Blames (s : Source) (f : Failure) : Prop :=
  ∀ d, f = .diagnostic d → ∃ text l, s.Offends d.problem text l ∧ s.PointsAt d l text

variable {s : Source}

theorem blames_of_isDiagnostic {f : Failure} (h : f.isDiagnostic = false) : s.Blames f := by
  intro d hd
  rw [hd] at h
  cases h

/-- No lexeme begins with a line feed, nor does what is left of one. -/
theorem Reads.ne_lineFeed {first : Char} {text : List Char} {l : Location}
    (h : s.Reads (first :: text) l) : first ≠ '\n' := by
  rintro rfl
  -- a string begins with a quote, and neither punctuation nor a word has a line feed
  rcases h.text_cases with ⟨body, hbody⟩ | ⟨c, hc, hpunctuation⟩ | hall
  · cases hbody
  · cases hc
    cases hpunctuation
  · cases (hall '\n' List.mem_cons_self).1

/-- What offends stands in the text, and not at the end of a line. -/
theorem Offends.splits {p : Problem} {text : List Char} {l : Location} (h : s.Offends p text l) :
    ∃ before first tail rest, text = first :: tail ∧ first ≠ '\n' ∧
      s.text = before ++ first :: tail ++ rest ∧ l = s.locate (s.start.position.after before) := by
  cases h with
  | word hreads hne =>
    obtain ⟨first, tail, rfl⟩ := List.exists_cons_of_ne_nil hne
    obtain ⟨before, rest, htext, hl⟩ := hreads.splits
    exact ⟨before, first, tail, rest, rfl, hreads.ne_lineFeed, htext, hl⟩
  | @string c gap rest hc hscan =>
    obtain ⟨before, htext, hposition⟩ := hc.splits
    refine ⟨before ++ gap, '"', rest, [], rfl, by decide, ?_, ?_⟩
    · rw [htext, Gap.append_of_scanFrom hscan, List.append_nil, List.append_assoc]
    · rw [hposition, Position.after_append]
  | @comment c gap rest hc hscan hrest =>
    obtain ⟨before, htext, hposition⟩ := hc.splits
    refine ⟨before ++ gap, '/', '*' :: rest, [], rfl, by decide, ?_, ?_⟩
    · rw [htext, hrest, List.append_nil, List.append_assoc]
    · rw [hposition, Position.after_append]

/-- A problem is reported with the caret below what it is about. -/
theorem Offends.blames {p : Problem} {text : List Char} {l : Location} (h : s.Offends p text l) :
    s.Blames (s.report p l) := by
  intro d hd
  obtain rfl := Failure.eq_of_ofDiagnostic hd
  obtain ⟨before, first, tail, rest, rfl, hfirst, htext, hl⟩ := h.splits
  exact ⟨first :: tail, l, h, pointsAt_of_splits hfirst htext p hl⟩

/-- Where no lexeme can be read, the failure is about a literal or a comment that is not closed. -/
theorem blames_of_next {c after : Cursor} {f : Failure} (hc : s.Visits c)
    (h : s.next c = .failed f after) : s.Blames f := by
  obtain ⟨-, ⟨gap, rest, hscan, hopen, rfl⟩ | ⟨before, hscan, rfl⟩⟩ := failed_cases h
  · exact (Offends.string hc hscan hopen).blames
  · obtain ⟨rest, hrest⟩ := Gap.append_of_unclosed hscan
    exact (Offends.comment hc hscan hrest).blames

/-- A word that is no symbol is to blame for that itself, not the signs in front of it. -/
theorem blames_of_classifyText (marks : Option Nat) {text : List Char} {l : Location}
    (h : s.Reads text l) : ∀ f ∈ (s.classifyText marks text l).failure, s.Blames f := by
  -- behind each sign what is left of the lexeme is read one column later
  induction text generalizing marks l with
  | nil =>
    intro f hf
    cases hf
  | cons c rest ih =>
    rw [classifyText]
    split
    · next hc =>
      subst hc
      split
      · -- too many signs are no diagnostic
        rintro _ ⟨⟩
        exact blames_of_isDiagnostic rfl
      · exact ih (marks.map (· - 1)) h.next
    · have hplain := s.classifyPlain_cases (c :: rest) l
      rcases hplain with ⟨kind, value, hok⟩ | ⟨problem, hword, herror⟩ | ⟨fault, herror⟩
      · rw [hok]
        intro f hf
        cases hf
      · rw [herror]
        rintro _ ⟨⟩
        exact (Offends.word h (List.cons_ne_nil c rest) hword).blames
      · rw [herror]
        rintro _ ⟨⟩
        exact blames_of_isDiagnostic rfl

/-- The items stand where they say, and the failure behind them is about what stands there. -/
def Vouches (s : Source) (answer : List Item × Option Failure) : Prop :=
  (∀ x ∈ answer.1, s.Places x) ∧ ∀ f ∈ answer.2, s.Blames f

/-- A lexeme stands where it says. -/
theorem places_lexeme {c after : Cursor} {l : Lexeme} (hc : s.Visits c)
    (hnext : s.next c = .lexeme l after) : s.Places (.lexeme l) := by
  obtain ⟨before, htext, hposition⟩ := hc.splits
  obtain ⟨gap, hrest, hlocation, -⟩ := next_splits hnext
  refine ⟨before ++ gap, after.rest, ?_, ?_⟩
  · rw [htext, hrest, ← List.append_assoc, ← List.append_assoc]
    rfl
  · rw [Position.after_append, ← hposition, ← hlocation]
    rfl

/-- So does every symbol that is made of it. -/
theorem places_symbol {c after : Cursor} {l : Lexeme} (hc : s.Visits c)
    (hnext : s.next c = .lexeme l after) :
    ∀ x ∈ (s.classify l).symbols, s.Places (.symbol x) := by
  intro x hx
  obtain ⟨before, rest, htext, hlocation⟩ := places_lexeme hc hnext
  obtain ⟨taken, left, hl, hside, -⟩ :=
    s.classifyText_sideBySide s.markLimit l.text.toList (s.start.position.after before)
  rw [← Option.some.inj hlocation] at hside
  -- the symbol stands in the lexeme, and that in the text
  obtain ⟨u, v, rfl, hplace⟩ := hside.exists_place hx
  refine ⟨before ++ u, v ++ left ++ rest, ?_, ?_⟩
  · rw [htext]
    show before ++ l.text.toList ++ rest = _
    rw [hl]
    simp only [Item.text, List.append_assoc]
  · rw [Position.after_append]
    exact hplace

/-- **The items of a lexeme.** -/
theorem items_vouched {c after : Cursor} {l : Lexeme} (hc : s.Visits c)
    (hnext : s.next c = .lexeme l after) (content : Stream.Content) :
    s.Vouches (content.items s l) := by
  cases content with
  | lexemes =>
    refine ⟨List.forall_mem_singleton.2 (places_lexeme hc hnext), ?_⟩
    intro f hf
    cases hf
  | symbols =>
    refine ⟨?_, blames_of_classifyText s.markLimit (.of_next hc hnext)⟩
    intro x hx
    obtain ⟨y, hy, rfl⟩ := List.mem_map.1 hx
    exact places_symbol hc hnext y hy

/-! ### Where the cursor stands -/

/-- Where the cursor of a reader can be: between two lexemes, or at the end of the text. -/
inductive Rests (s : Source) : Cursor → Prop where
  | between {c : Cursor} (h : s.Visits c) : s.Rests c
  | atEnd : s.Rests ⟨[], s.start.position.after s.text⟩

/-- The cursor behind all that is left. -/
theorem Visits.rests_past {c : Cursor} (hc : s.Visits c) : s.Rests (c.past c.rest []) := by
  obtain ⟨before, htext, hposition⟩ := hc.splits
  rw [Cursor.past, hposition, ← Position.after_append, ← htext]
  exact .atEnd

/-- What is in front of such a place, and the position there. -/
theorem Rests.splits {c : Cursor} (hc : s.Rests c) :
    ∃ before, s.text = before ++ c.rest ∧ c.position = s.start.position.after before := by
  cases hc with
  | between h => exact h.splits
  | atEnd => exact ⟨s.text, (List.append_nil s.text).symm, rfl⟩

/-- Where the text ends, the cursor is left behind it. -/
theorem ended_cases {c after : Cursor} (h : s.next c = .ended after) :
    after = c.past c.rest [] := by
  unfold next at h
  split at h
  · next gap hscan =>
    cases h
    rw [Gap.append_of_scanFrom hscan, List.append_nil]
  · next gap first rest hscan =>
    have hreads := s.readsAt_lexemeAt (c.past gap (first :: rest)) first rest
    rw [h] at hreads
    cases hreads
  · cases h
  · cases h
    rfl

theorem Visits.rests_of_ended {c after : Cursor} (hc : s.Visits c) (h : s.next c = .ended after) :
    s.Rests after := by
  rw [ended_cases h]
  exact hc.rests_past

theorem Visits.rests_of_failed {c after : Cursor} {f : Failure} (hc : s.Visits c)
    (h : s.next c = .failed f after) : s.Rests after := by
  rw [(failed_cases h).1]
  exact hc.rests_past

/-- Reading all that is left leaves the cursor at such a place. -/
theorem collect_rests {α : Type} {view : Lexeme → Except Failure (List α)} {c : Cursor}
    (hc : s.Visits c) : s.Rests (s.collect view c).2 := by
  fun_induction collect s view c with
  | case1 c after hnext => exact hc.rests_of_ended hnext
  | case2 c f after hnext => exact hc.rests_of_failed hnext
  | case3 c l after hnext f hf => exact .between (.next hc hnext)
  | case4 c l after hnext items hitems more last hmore ih =>
    have hlast := ih (.next hc hnext)
    rwa [hmore] at hlast

end Source

/-! ### One stream -/

namespace Stream

variable {s : Source} {c : Cursor}

/-- What a stream still has to hand out is right. -/
def Sound (s : Source) (stream : Stream) : Prop :=
  ∀ pending failure, stream.progress = .reading pending failure → s.Vouches (pending, failure)

/-- The answer of a stream is right, it still has only right answers, and the cursor is at a place
where reading can go on. -/
structure Answers (s : Source) (answer : Except Failure (Option Item)) (stream : Stream)
    (after : Cursor) : Prop where
  answer : Ends (fun o => ∀ x ∈ o, s.Places x) s.Blames answer
  stream : stream.Sound s
  cursor : s.Rests after

/-- A stream that has ended has nothing to hand out. -/
theorem sound_finished (content : Content) : Sound s ⟨content, .finished⟩ := by
  intro pending failure h
  cases h

theorem sound_fresh (content : Content) : Sound s ⟨content, .fresh⟩ := by
  intro pending failure h
  cases h

/-- A stream that has ended hands out nothing. -/
theorem answers_none {stream : Stream} (h : stream.Sound s) (hc : s.Rests c) :
    Answers s (.ok none) stream c := by
  refine ⟨?_, h, hc⟩
  intro x hx
  cases hx

/-- What has been vouched for is handed out one by one, and the failure at last. -/
theorem handOut_sound (content : Content) {given : List Item × Option Failure}
    (h : s.Vouches given) (hc : s.Rests c) :
    Answers s (handOut content given).1 (handOut content given).2 c := by
  obtain ⟨items, failure⟩ := given
  obtain ⟨hitems, hfailure⟩ := h
  cases items with
  -- the first item is handed out, and the others are kept
  | cons x pending =>
    obtain ⟨hx, hpending⟩ := List.forall_mem_cons.1 hitems
    refine ⟨?_, ?_, hc⟩
    · rintro _ ⟨⟩
      exact hx
    · rintro _ _ ⟨⟩
      exact ⟨hpending, hfailure⟩
  -- nothing is left but the failure, if there is one
  | nil =>
    cases failure with
    | some f => exact ⟨hfailure f rfl, sound_finished content, hc⟩
    | none => exact answers_none (sound_finished content) hc

/-- A stream that goes on with the next lexeme. -/
theorem advance_sound (content : Content) (hc : s.Rests c) :
    Answers s (advance content s c).1 (advance content s c).2.1 (advance content s c).2.2 := by
  cases hc with
  | between hc =>
    unfold advance
    split
    · next after hnext => exact answers_none (sound_finished content) (hc.rests_of_ended hnext)
    · next f after hnext =>
      exact ⟨Source.blames_of_next hc hnext, sound_finished content, hc.rests_of_failed hnext⟩
    · next l after hnext =>
      have hafter : s.Rests after := .between (.next hc hnext)
      exact handOut_sound content (Source.items_vouched hc hnext content) hafter
  -- at the end of the text a stream just ends
  | atEnd => exact answers_none (sound_finished content) .atEnd

/-- **One request to a stream.** -/
theorem next_sound {stream : Stream} (h : stream.Sound s) (hc : s.Rests c) :
    Answers s (stream.next s c).1 (stream.next s c).2.1 (stream.next s c).2.2 := by
  unfold next
  split
  · -- the first request sets the cursor back
    exact advance_sound stream.content (.between .start)
  · -- one more lexeme is read, from where the cursor was left
    exact advance_sound stream.content hc
  · -- something of the last lexeme is left to hand out, and the cursor stays
    next pending failure _ hreading =>
    exact handOut_sound stream.content (h pending failure hreading) hc
  · exact answers_none h hc

end Stream

/-! ### A reader -/

namespace Reader

/-- What can be asked of a reader. A stream is abandoned by not asking for more of it. -/
inductive Request where
  | openStream (content : Stream.Content)
  | next (index : Nat)
  | lexemes
  | symbols
  | normalize

/-- The items that a request hands out, or its failure, and the reader after it. -/
def perform (r : Reader) : Request → Except Failure (List Item) × Reader
  | .openStream content => (.ok [], r.openStream content)
  | .next index => ((r.next index).1.map Option.toList, (r.next index).2)
  | .lexemes => (r.lexemes.1.map (List.map .lexeme), r.lexemes.2)
  | .symbols => (r.symbols.1.map (List.map .symbol), r.symbols.2)
  | .normalize => (r.normalize.1.map fun _ => [], r.normalize.2)

/-- The reader after some requests, whether they succeed or fail. -/
def run (r : Reader) (requests : List Request) : Reader :=
  requests.foldl (fun r request => (r.perform request).2) r

/-- A reader of a source whose cursor is at a place where reading can go on, and whose streams have
only right answers to give. -/
structure Sound (s : Source) (r : Reader) : Prop where
  source : r.source = s
  cursor : s.Rests r.cursor
  streams : ∀ stream ∈ r.streams, stream.Sound s

variable {s : Source} {r : Reader}

theorem sound_ofSource (s : Source) : (ofSource s).Sound s :=
  ⟨rfl, .between .start, List.forall_mem_nil _⟩

/-- **One request to one of the streams** of a reader. -/
theorem next_sound (h : r.Sound s) (index : Nat) : (r.next index).2.Sound s ∧
    Ends (fun o => ∀ x ∈ o, s.Places x) s.Blames (r.next index).1 := by
  obtain ⟨rfl, hcursor, hstreams⟩ := h
  unfold next
  split
  · -- there is no such stream
    refine ⟨⟨rfl, hcursor, hstreams⟩, ?_⟩
    intro x hx
    cases hx
  · next stream hstream =>
    have hanswers := Stream.next_sound (hstreams stream (List.mem_of_getElem? hstream)) hcursor
    refine ⟨⟨rfl, hanswers.cursor, ?_⟩, hanswers.answer⟩
    -- all streams but the one that was asked are as before
    intro other hother
    rcases List.mem_or_eq_of_mem_set hother with hother | rfl
    · exact hstreams other hother
    · exact hanswers.stream

/-- Reading the whole source anew. -/
theorem collect_sound {α : Type} (h : r.Sound s) {view : Lexeme → Except Failure (List α)} :
    Sound s { r with cursor := (s.collect view s.start).2 } :=
  ⟨h.source, Source.collect_rests .start, h.streams⟩

/-- All lexemes of a source stand where they say, or a failure is about what stands at its place. -/
theorem lexemes_ends : Ends (fun ls => ∀ l ∈ ls, s.Places (.lexeme l)) s.Blames s.lexemes := by
  refine Source.collect_ends .start (fun _ _ _ => Source.blames_of_next) ?_
  intro c l after hc hnext
  exact List.forall_mem_singleton.2 (Source.places_lexeme hc hnext)

/-- The same holds of all its symbols. -/
theorem symbols_ends : Ends (fun xs => ∀ x ∈ xs, s.Places (.symbol x)) s.Blames s.symbols := by
  refine Source.collect_ends .start (fun _ _ _ => Source.blames_of_next) ?_
  intro c l after hc hnext
  obtain ⟨hitems, hfailure⟩ := Source.items_vouched hc hnext .symbols
  unfold Classified.outcome
  split
  · exact Source.places_symbol hc hnext
  · next f hf => exact hfailure f hf

/-- **One request to a reader** is answered rightly and leaves the reader sound. -/
theorem perform_sound (h : r.Sound s) (request : Request) : (r.perform request).2.Sound s ∧
    Ends (fun xs => ∀ x ∈ xs, s.Places x) s.Blames (r.perform request).1 := by
  cases request with
  -- a stream that is opened does not touch the cursor
  | openStream content =>
    refine ⟨⟨h.source, h.cursor, ?_⟩, List.forall_mem_nil _⟩
    intro stream hstream
    rcases List.mem_append.1 hstream with hstream | hstream
    · exact h.streams stream hstream
    · obtain rfl := List.mem_singleton.1 hstream
      exact Stream.sound_fresh content
  | next index =>
    obtain ⟨hsound, hends⟩ := next_sound h index
    exact ⟨hsound, hends.map fun o _ ho x hx => ho x (Option.mem_toList.1 hx)⟩
  | lexemes =>
    obtain rfl := h.source
    refine ⟨collect_sound h, lexemes_ends.map fun ls _ hls x hx => ?_⟩
    obtain ⟨l, hl, rfl⟩ := List.mem_map.1 hx
    exact hls l hl
  | symbols =>
    obtain rfl := h.source
    refine ⟨collect_sound h, symbols_ends.map fun xs _ hxs x hx => ?_⟩
    obtain ⟨y, hy, rfl⟩ := List.mem_map.1 hx
    exact hxs y hy
  | normalize =>
    obtain rfl := h.source
    -- nothing is handed out, but the lexemes are read
    have hnormalize : Ends (fun _ => True) r.source.Blames r.normalize.1 :=
      lexemes_ends.map fun _ _ _ => trivial
    exact ⟨collect_sound h, hnormalize.map fun _ _ _ => List.forall_mem_nil _⟩

/-- **Any requests** leave a reader sound. -/
theorem run_sound (h : r.Sound s) (requests : List Request) : (r.run requests).Sound s := by
  induction requests generalizing r with
  | nil => exact h
  | cons request requests ih => exact ih (perform_sound h request).1

/-- **Lines, columns and carets are right**, whatever has been asked of a reader before. The line of
its cursor is the first line and the number of line feeds before the cursor, and the column is one
and the number of characters since the last of them. A lexeme or a symbol that is handed out has a
location, and the line there has its text, from the column on. A diagnostic is about a word, a
string literal or a comment, and its caret stands below the first character of that. -/
theorem positions_right (s : Source) (requests : List Request) :
    (∃ before, s.text = before ++ ((ofSource s).run requests).cursor.rest ∧
      ((ofSource s).run requests).cursor.position.line = s.firstLine + before.count '\n' ∧
      ((ofSource s).run requests).cursor.position.column =
        1 + (before.rtakeWhile (· ≠ '\n')).length) ∧
    ∀ request,
      (∀ items, (((ofSource s).run requests).perform request).1 = .ok items →
        ∀ x ∈ items, ∃ l, x.location = some l ∧ l.file = s.file ∧ s.Shows l x.text) ∧
      ∀ d, (((ofSource s).run requests).perform request).1 = .error (.diagnostic d) →
        ∃ text l, s.Offends d.problem text l ∧ s.PointsAt d l text := by
  have hsound := run_sound (sound_ofSource s) requests
  refine ⟨?_, fun request => ?_⟩
  · obtain ⟨before, htext, hposition⟩ := hsound.cursor.splits
    -- the position behind some text counts its line feeds and what follows the last of them
    have hcount : s.start.position.after before = _ := Position.after_eq s.firstLine before
    refine ⟨before, htext, ?_, ?_⟩
    · rw [hposition, hcount]
    · rw [hposition, hcount]
  · obtain ⟨-, hends⟩ := perform_sound hsound request
    constructor
    · intro items hitems x hx
      obtain ⟨before, rest, htext, hlocation⟩ := hends.of_ok hitems x hx
      exact ⟨_, hlocation, rfl, Source.shows_of_splits htext⟩
    · intro d hd
      exact hends.of_error hd d rfl

/-- A word, and below it a sign with digits that are no number. -/
def strayDigits : Source := { text := "x\n!12ab".toList, file := "p.asm" }

/-- Two streams are opened and asked for an item each. -/
def byTurns : List Request := [.openStream .symbols, .openStream .lexemes, .next 0, .next 1]

/-- The second stream has set the cursor back, and stands behind the word like the first one before.
The first one goes on from there: it hands out the sign and then fails, with a caret below the
digits. -/
theorem strayDigits_positions :
    (∃ before, strayDigits.text = before ++ "\n!12ab".toList ∧
      (1 : Int) = 1 + before.count '\n' ∧
      (2 : Int) = 1 + (before.rtakeWhile (· ≠ '\n')).length) ∧
    (((ofSource strayDigits).run byTurns).perform (.next 0)).1 =
      .ok [.symbol ⟨.immediate, "!", none, some ⟨"p.asm", 2, 1⟩⟩] ∧
    strayDigits.Shows ⟨"p.asm", 2, 1⟩ ['!'] ∧
    ∃ d : Diagnostic,
      (((ofSource strayDigits).run (byTurns ++ [.next 0])).perform (.next 0)).1 =
        .error (.diagnostic d) ∧
      d.text = "p.asm:2:2: error: invalid number '12ab'\n    !12ab\n     ^" ∧
      ∃ text l, strayDigits.Offends d.problem text l ∧ strayDigits.PointsAt d l text := by
  -- the requests are run; all that is left to the theorem is what their answers mean
  have hcursor : ((ofSource strayDigits).run byTurns).cursor = ⟨"\n!12ab".toList, ⟨1, 2⟩⟩ := by
    cbv
  have hsign : (((ofSource strayDigits).run byTurns).perform (.next 0)).1 =
      .ok [.symbol ⟨.immediate, "!", none, some ⟨"p.asm", 2, 1⟩⟩] := by
    cbv
  have hdigits : (((ofSource strayDigits).run (byTurns ++ [.next 0])).perform (.next 0)).1 =
      .error (.diagnostic ⟨.invalidNumber "12ab", some ⟨"p.asm", 2, 2⟩, some "!12ab"⟩) := by
    cbv
  obtain ⟨hplace, hanswers⟩ := positions_right strayDigits byTurns
  rw [hcursor] at hplace
  obtain ⟨l, hl, -, hshows⟩ := (hanswers (.next 0)).1 _ hsign _ (List.mem_singleton_self _)
  obtain rfl := Option.some.inj hl
  refine ⟨hplace, hsign, hshows, _, hdigits, rfl, ?_⟩
  exact ((positions_right strayDigits (byTurns ++ [.next 0])).2 (.next 0)).2 _ hdigits

end Reader

end RomAsm
