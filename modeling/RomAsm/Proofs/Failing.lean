import RomAsm.Proofs.Agreement
import RomAsm.Proofs.LogLevel

/-!
# What a failed call leaves behind

An assembler is called again and again, with texts and with files. A call that fails because of the
program leaves nothing of this or any earlier program (`IsBlank`). Two kinds of failures do leave
something: a file that cannot be read leaves the program before it, and a failure of another kind
than a diagnostic, in the middle of the code, leaves the code up to there and all names.

* `isBlank_iff` — what can be asked of an assembler shows nothing exactly if its generator keeps
  neither code nor names nor lines;
* `call_of_unreadable`, `call_of_readable` — what one call does;
* `isBlank_of_failed_call_iff` — what a failed call leaves, after any calls before it.
-/

namespace RomAsm

/-! ### Listings -/

namespace Text

/-- A text that others follow is joined to them by what is put between. -/
theorem joinChars_cons {between text : List Char} {rest : List (List Char)} (h : rest ≠ []) :
    joinChars between (text :: rest) = text ++ between ++ joinChars between rest := by
  cases rest with
  | nil => exact absurd rfl h
  | cons _ _ => rfl

/-- Lines in the middle make a text longer by their characters and by what is put between them. -/
theorem length_joinChars_insert (between : List Char) (xs ys : List (List Char))
    {zs : List (List Char)} (h : zs ≠ []) :
    (joinChars between (xs ++ (ys ++ zs))).length =
      (joinChars between (xs ++ zs)).length + (ys.map fun y => y.length + between.length).sum := by
  -- the lines `xs` in front do not matter; what `ys` add is counted line by line
  induction xs with
  | nil =>
    induction ys with
    | nil => rfl
    | cons y ys ih =>
      have hcons : joinChars between (y :: (ys ++ zs)) = _ := joinChars_cons (by simp [h])
      simp only [List.nil_append] at ih ⊢
      rw [List.cons_append, hcons, List.map_cons, List.sum_cons, List.length_append,
        List.length_append, ih]
      omega
  | cons x xs ih =>
    rw [List.cons_append, List.cons_append, joinChars_cons (by simp [h]),
      joinChars_cons (by simp [h])]
    simp only [List.length_append, ih]
    omega

end Text

namespace Generator

/-- A listing without names has the lines of the statements between its head and its foot. -/
theorem exists_listing : ∃ head foot : List String, foot ≠ [] ∧ ∀ g : Generator, g.tags = [] →
    g.listing = .ok (Text.join "\n" (head ++ (g.lines ++ foot))) := by
  refine ⟨["Chameleon Assembler Listing", Listing.rule '=' 60, "",
    "Addr  Code          Line  Source", Listing.rule '-' 60],
    ["", "Symbol Table", Listing.rule '-' 30], nofun, ?_⟩
  intro g htags
  -- a table without names adds no lines
  have htagLines : g.tagLines (fun name value => Text.padRight 20 name ++ " = " ++ value) =
      .ok [] := by
    rw [tagLines, htags, Table.sorted, List.mergeSort_nil]
    rfl
  rw [listing, htagLines, Trace.except_ok_bind, List.append_nil, List.append_assoc]
  rfl

/-- Of the listings without names, only one without lines is the listing of nothing. -/
theorem lines_eq_nil_of_listing {g : Generator} (htags : g.tags = [])
    (h : g.listing = unused.listing) : g.lines = [] := by
  obtain ⟨head, foot, hfoot, hlisting⟩ := exists_listing
  rw [hlisting g htags, hlisting unused rfl] at h
  -- head and foot are the same, so the lines in between take no characters
  have hlength := congrArg String.length (Except.ok.inj h)
  simp only [Text.join, String.length_ofList, List.map_append, unused, List.nil_append] at hlength
  rw [Text.length_joinChars_insert _ _ _ (by simpa using hfoot)] at hlength
  have hsum := Nat.left_eq_add.1 hlength.symm
  -- every line is followed by at least the end of the line
  cases hlines : g.lines with
  | nil => rfl
  | cons line rest =>
    have hend : "\n".toList.length = 1 := rfl
    rw [hlines, List.map_cons, List.map_cons, List.sum_cons] at hsum
    omega

end Generator

/-! ### Files that cannot be read -/

namespace FileTree

variable {t : FileTree} {path : String} {failure : Failure}

/-- A path that leads nowhere is not reported as a diagnostic. -/
theorem isDiagnostic_of_find (h : t.find path = .error failure) : failure.isDiagnostic = false := by
  unfold find checkNoNull at h
  -- the path has a character that no path may have, or it leads nowhere
  split at h
  · cases h
    rfl
  · cases hnode : t.nodeAt path with
    | error cause =>
      rw [hnode] at h
      cases h
      rfl
    | ok n =>
      rw [hnode] at h
      cases h

/-- Nor is a directory in the place of a file. -/
theorem isDiagnostic_of_read (h : t.read path = .error failure) : failure.isDiagnostic = false := by
  unfold read at h
  split at h
  · cases h
  · cases h
    rfl
  · next hfind =>
    cases h
    exact isDiagnostic_of_find hfind

/-- What is wrong with a file is never wrong with the program. -/
theorem isDiagnostic_of_readText (h : t.readText path = .error failure) :
    failure.isDiagnostic = false := by
  unfold readText at h
  cases hread : t.read path with
  | error f =>
    rw [hread] at h
    cases h
    exact isDiagnostic_of_read hread
  | ok bytes =>
    rw [hread, Trace.except_ok_bind] at h
    -- a file can be missing, and it can hold what is no text
    cases hdecode : Text.Utf8.decode bytes with
    | error fault =>
      rw [hdecode] at h
      cases h
      rfl
    | ok text =>
      rw [hdecode] at h
      cases h

end FileTree

/-! ### Calls -/

/-- A call of an assembler: with a text, or with the path of a file. -/
inductive Call where
  | text (level : Level) (source : Source)
  | file (level : Level) (markLimit : Option Nat) (files : FileTree) (path : String)

namespace Call

/-- The level of the log during a call. -/
def level : Call → Level
  | text level _ | file level _ _ _ => level

/-- The source that a call is about, if it can be read. -/
def source : Call → Except Failure Source
  | text _ source => .ok source
  | file _ markLimit files path =>
    (files.readText (Path.normalize path)).map fun text =>
      { text := text, file := Path.normalize path, markLimit := markLimit }

end Call

namespace Assembler

/-- What a call comes to. -/
def call (a : Assembler) : Call → Attempt Assembler (List UInt8)
  | .text level source => a.assemble level source
  | .file level markLimit files path => a.assembleFile level markLimit files path

/-- The assembler after some calls, each of which may have failed. -/
def after (a : Assembler) (calls : List Call) : Assembler :=
  calls.foldl (fun a c => (a.call c).state) a

/-- An assembler shows nothing of a program: no code, no name, and the listing of nothing. -/
structure IsBlank (a : Assembler) : Prop where
  code : a.code = []
  tags : a.tags = []
  listing : a.listing = Generator.unused.listing

/-- What can be asked of an assembler shows all that its generator keeps, apart from the counter. -/
theorem isBlank_iff {a : Assembler} : a.IsBlank ↔
    a.generator.code = [] ∧ a.generator.tags = [] ∧ a.generator.lines = [] := by
  constructor
  · -- statements without bytes show in the listing only
    rintro ⟨hcode, htags, hlisting⟩
    exact ⟨hcode, htags, Generator.lines_eq_nil_of_listing htags hlisting⟩
  · rintro ⟨hcode, htags, hlines⟩
    refine ⟨hcode, htags, ?_⟩
    obtain ⟨head, foot, -, hlisting⟩ := Generator.exists_listing
    rw [listing, hlisting _ htags, hlines, hlisting .unused rfl]
    rfl

theorem isBlank_of_unused {a : Assembler} (h : a.generator = .unused) : a.IsBlank := by
  rw [isBlank_iff, h]
  exact ⟨rfl, rfl, rfl⟩

/-! ### One call -/

variable {a : Assembler} {c : Call} {failure : Failure}

/-- A call whose source cannot be read leaves the generator alone. -/
theorem call_of_unreadable (h : c.source = .error failure) :
    (a.call c).state.generator = a.generator ∧ (a.call c).outcome = .error failure := by
  cases c with
  -- a text is always there
  | text level source => cases h
  | file level markLimit files path =>
    have hread := Trace.except_map_eq_error.1 h
    unfold call assembleFile
    dsimp only
    rw [hread]
    exact ⟨rfl, rfl⟩

/-- What keeps a call from its source is no diagnostic. -/
theorem isDiagnostic_of_unreadable (h : c.source = .error failure) :
    failure.isDiagnostic = false := by
  cases c with
  | text level source => cases h
  | file level markLimit files path =>
    exact FileTree.isDiagnostic_of_readText (Trace.except_map_eq_error.1 h)

/-- Any other call assembles its source. -/
theorem call_of_readable {source : Source} (h : c.source = .ok source) :
    ∃ b : Assembler, b.settings = a.settings ∧ a.call c = b.assemble c.level source := by
  cases c with
  | text level _ =>
    obtain rfl := Except.ok.inj h
    exact ⟨a, rfl, rfl⟩
  | file level markLimit files path =>
    -- the path is kept before the text is assembled
    obtain ⟨text, hread, rfl⟩ := Trace.except_map_eq_ok.1 h
    refine ⟨{ a with sourcePath := some (Path.normalize path) }, rfl, ?_⟩
    unfold call assembleFile
    dsimp only
    rw [hread]
    rfl

/-- Assembling does not change the settings. -/
theorem settings_assemble (a : Assembler) (level : Level) (source : Source) :
    (a.assemble level source).state.settings = a.settings := by
  unfold assemble
  dsimp only
  -- whether the front end fails, generation does, or neither
  split
  · rfl
  · split <;> rfl

/-- So no call does. -/
theorem settings_call (a : Assembler) (c : Call) : (a.call c).state.settings = a.settings := by
  cases c with
  | text level source => exact settings_assemble a level source
  | file level markLimit files path =>
    unfold call assembleFile
    dsimp only
    split
    · rfl
    · exact settings_assemble _ level _

/-- No call changes the settings. -/
theorem settings_after (a : Assembler) (calls : List Call) :
    (a.after calls).settings = a.settings := by
  induction calls generalizing a with
  | nil => rfl
  | cons c calls ih => exact (ih (a.call c).state).trans (settings_call a c)

end Assembler

/-! ### One failed call -/

namespace Generation

/-- A program has reached nothing exactly if it has neither code nor names nor statements. The
counter does not matter, as it is the length of the code. -/
theorem reached_eq_unused_iff {strict : Bool} {p : Program} : reached strict p = .unused ↔
    (reached strict p).code = [] ∧ (reached strict p).tags = [] ∧
      (reached strict p).lines = [] := by
  have haddress : (reached strict p).address = (reached strict p).code.length := rfl
  generalize reached strict p = g at haddress ⊢
  constructor
  · rintro rfl
    exact ⟨rfl, rfl, rfl⟩
  · rintro ⟨hcode, htags, hlines⟩
    rw [hcode] at haddress
    exact (Generator.mk.injEq ..).mpr ⟨hcode, haddress, htags, hlines⟩

end Generation

namespace Assembler

variable {a : Assembler} {c : Call} {failure : Failure}

/-- A run that fails leaves nothing, or what the encoding of the program had reached. -/
theorem generator_of_failed {level : Level} {source : Source}
    (h : (a.assemble level source).outcome = .error failure) :
    ((∃ f, (frontEnd level source).outcome = .error f) ∧
      (a.assemble level source).state.generator = .unused) ∨
    ∃ p, (frontEnd level source).outcome = .ok p ∧ (a.assemble level source).state.generator =
      if failure.isDiagnostic then .unused else Generation.reached a.settings.strict p := by
  cases hfront : (frontEnd level source).outcome with
  -- the generator was cleared before the front end began
  | error f => exact .inl ⟨⟨f, rfl⟩, by rw [(assemble_of_frontEnd hfront).1]⟩
  | ok p =>
    obtain ⟨hstate, houtcome⟩ := assemble_of_frontEnd_ok (a := a) hfront a.generator
    refine .inr ⟨p, rfl, ?_⟩
    have hencode := Generator.outcome_generate_error.1 (houtcome.symm.trans h)
    rw [hstate, Generator.generate_of_error hencode]

/-- **What a failed call leaves.** After any calls, a call that ends in a diagnostic leaves nothing.
A call that fails otherwise leaves nothing exactly if its source could be read or there was nothing
before it, and no code and no name was reached. -/
theorem isBlank_of_failed_call_iff (settings : Settings) (calls : List Call) (c : Call)
    {failure : Failure}
    (h : (((ofSettings settings).after calls).call c).outcome = .error failure) :
    (failure.isDiagnostic = true → (((ofSettings settings).after calls).call c).state.IsBlank) ∧
    ((((ofSettings settings).after calls).call c).state.IsBlank ↔
      (∀ f, c.source = .error f → ((ofSettings settings).after calls).IsBlank) ∧
      ∀ source p, c.source = .ok source → (frontEnd c.level source).outcome = .ok p →
        failure.isDiagnostic = true ∨ Generation.reached settings.strict p = .unused) := by
  -- of the calls before only the settings and the generator matter
  have hsettings : ((ofSettings settings).after calls).settings = settings := settings_after _ calls
  generalize (ofSettings settings).after calls = a at h hsettings ⊢
  subst hsettings
  cases hsource : c.source with
  | error f =>
    -- the generator is the one from before, and the failure is no diagnostic
    obtain ⟨hgenerator, houtcome⟩ := call_of_unreadable (a := a) hsource
    obtain rfl : f = failure := Except.error.inj (houtcome.symm.trans h)
    have hfile : f.isDiagnostic = false := isDiagnostic_of_unreadable hsource
    rw [isBlank_iff, hgenerator, ← isBlank_iff, hfile]
    refine ⟨nofun, fun hblank => ⟨fun _ _ => hblank, ?_⟩, fun hblank => hblank.1 f rfl⟩
    rintro _ _ ⟨⟩
  | ok source =>
    obtain ⟨b, hb, hcall⟩ := call_of_readable (a := a) hsource
    rw [hcall] at h ⊢
    rw [← hb]
    have hreadable : ∀ f : Failure, Except.ok source = Except.error f → a.IsBlank := by
      rintro _ ⟨⟩
    rcases generator_of_failed h with ⟨⟨f, hfront⟩, hgenerator⟩ | ⟨p, hfront, hgenerator⟩
    · -- there is no program, so nothing has been encoded
      have hblank := isBlank_of_unused hgenerator
      refine ⟨fun _ => hblank, iff_of_true hblank ⟨hreadable, ?_⟩⟩
      rintro _ p ⟨⟩ hp
      cases hfront.symm.trans hp
    · -- the encoding has failed: a diagnostic clears what it has reached, another failure does not
      cases hfailure : failure.isDiagnostic with
      | true =>
        rw [hfailure] at hgenerator
        have hblank := isBlank_of_unused hgenerator
        exact ⟨fun _ => hblank, iff_of_true hblank ⟨hreadable, fun _ _ _ _ => .inl rfl⟩⟩
      | false =>
        rw [hfailure] at hgenerator
        rw [isBlank_iff, hgenerator]
        -- without a diagnostic, what was reached is still there
        change (_ → _) ∧ ((Generation.reached b.settings.strict p).code = [] ∧
          (Generation.reached b.settings.strict p).tags = [] ∧
          (Generation.reached b.settings.strict p).lines = [] ↔ _)
        rw [← Generation.reached_eq_unused_iff]
        refine ⟨nofun, fun hreached => ⟨hreadable, ?_⟩, ?_⟩
        · rintro _ q ⟨⟩ hq
          obtain rfl : p = q := Except.ok.inj (hfront.symm.trans hq)
          exact .inr hreached
        · rintro ⟨-, hreached⟩
          exact (hreached source p rfl hfront).resolve_left nofun

end Assembler

/-! ### A program of one byte -/

/-- A program of one byte. -/
def oneByte : Source where
  text := "NOP".toList
  file := "p.asm"

/-- The resolved program. -/
def oneByteResolved : Program := ⟨[⟨.mnemonic, "NOP", none, inFirstLine 1⟩], [], []⟩

/-- An assembler that has assembled the program. -/
def afterOneByte : Assembler := (Assembler.ofSettings {}).after [.text .warning oneByte]

/-- There is nothing to resolve in it. -/
theorem frontEnd_oneByte : (Assembler.frontEnd .warning oneByte).outcome = .ok oneByteResolved := by
  have hsymbols : oneByte.symbols = .ok [⟨.mnemonic, "NOP", none, inFirstLine 1⟩] := by cbv
  have hplaced : (Assembler.placed oneByte).outcome = .ok oneByteResolved := by
    rw [placed_of_symbols hsymbols]
    cbv
  have hround : (Resolution.round oneByteResolved).outcome = .ok ⟨oneByteResolved, false, []⟩ := by
    cbv
  exact Assembler.frontEnd_of_placed (by decide) hplaced
    (Resolution.resolve_of_rest hround rfl rfl (by cbv))

/-- The byte is there after the call. -/
theorem code_afterOneByte : afterOneByte.code = [0x00] := by
  have hcode : (Generator.unused.generate false oneByteResolved).state.code = [0x00] := by cbv
  -- the state after the call is that of the generator
  have hstate :=
    (Assembler.assemble_of_frontEnd_ok (a := .ofSettings {}) frontEnd_oneByte .unused).1
  exact (congrArg Assembler.code hstate).trans hcode

/-- Nothing is left of the program after one that ends in a diagnostic. -/
theorem openString_clears : afterOneByte.code = [0x00] ∧
    (afterOneByte.call (.text .warning openString)).outcome = .error (.diagnostic unclosed) ∧
    (afterOneByte.call (.text .warning openString)).state.IsBlank := by
  have hlevel : Level.warning ≠ .debug := by decide
  have hfront : (Assembler.frontEnd .warning openString).outcome = .error (.diagnostic unclosed) :=
    (Assembler.outcome_frontEnd hlevel).trans
      (Assembler.outcome_resolved_of_symbols symbols_openString)
  have houtcome := (Assembler.assemble_of_frontEnd (a := afterOneByte) hfront).2
  exact ⟨code_afterOneByte, houtcome, (Assembler.isBlank_of_failed_call_iff {}
    [.text .warning oneByte] (.text .warning openString) houtcome).1 rfl⟩

/-- **A failed call can leave a program behind**: a file that is not there leaves the one before. -/
theorem missingFile_leaves_code :
    (afterOneByte.call (.file .warning none .empty "missing.asm")).outcome =
      .error (.file .notFound "missing.asm") ∧
    (afterOneByte.call (.file .warning none .empty "missing.asm")).state.code = [0x00] := by
  have hsource : (Call.file .warning none .empty "missing.asm").source =
      .error (.file .notFound "missing.asm") := by decide +kernel
  obtain ⟨hgenerator, houtcome⟩ := Assembler.call_of_unreadable (a := afterOneByte) hsource
  refine ⟨houtcome, ?_⟩
  rw [Assembler.code, hgenerator]
  exact code_afterOneByte

end RomAsm
