import RomAsm.Proofs.Genuine
import RomAsm.Proofs.Generating

/-!
# How resolution and generation end

Resolution of a genuine program ends in a genuine program again or in a failure that is reported,
and so does every round of it. Generation has one more way to fail: a `.reserve` or `.org` may ask
for more zeros than can be laid down (`AsksZeros`).

* `Resolution.round_ends`, `Resolution.settle_ends`, `Resolution.resolve_ends` — one round, all of
  them, and resolution as a whole;
* `Generation.statement_ends`, `Generation.generate_ends` — one statement, and generation;
* `Generation.generate_of_reachesZeros` — zeros that cannot be laid down always end it.
-/

namespace RomAsm

variable {Place : Option Location → Prop}

/-! ### Resolution -/

namespace Resolution

/-- An operation has a value, or is reported at its operator. -/
theorem evaluate_ends {operator : Symbol} (h : operator.Genuine Place) (left right : Int) :
    Ends (fun _ => True) (Reported Place) (evaluate operator left right) := by
  unfold evaluate
  split
  · trivial
  · trivial
  · trivial
  · split
    · exact .report h.place _
    · split
      · trivial
      · split
        · trivial
        · exact .report h.place _

/-- What is known of a symbol from its role: the value of a literal is a number, and a pending
constant is a name. -/
def Role.Holds (s : Symbol) : Role → Prop
  | .plain => True
  | .pending => s.isIdentifier = true
  | .literal value => value.isSome = true

/-- The role of a symbol is found, or the definition that it begins is reported at its name or at
its equals sign. -/
theorem role_ends {s : Symbol} {following : List Symbol} (hs : s.Genuine Place)
    (hfollowing : Genuine Place following) (tags : Table Value)
    (definitions : Table (Option Location)) :
    Ends (Role.Holds s) (Reported Place) (role tags definitions s following) := by
  unfold role
  split
  · next hdefinition =>
    refine (Layout.checkNew_ends hs tags definitions).bind fun _ _ _ => ?_
    obtain ⟨hname, hequals⟩ := Bool.and_eq_true_iff.1 hdefinition
    -- a definition needs a value behind its equals sign
    match following with
    | [] => cases hequals
    | [equals] => exact Reported.report hfollowing.head.place _
    | equals :: value :: rest =>
      by_cases hstarts : value.startsStatement = true
      · simp only [hstarts, if_true]
        exact Reported.report hfollowing.head.place _
      · simp only [hstarts]
        by_cases hcomplete : isComplete value rest = true
        · -- a complete value is an integer
          obtain ⟨hinteger, -⟩ := Bool.and_eq_true_iff.1 hcomplete
          obtain ⟨n, hn, -⟩ := hfollowing.tail.head.number hinteger
          rw [if_pos hcomplete, hn]
          rfl
        · rw [if_neg hcomplete]
          exact hname
  · trivial

/-- What is known of a stream whose definitions were taken from it. -/
structure Defined.Genuine (Place : Option Location → Prop) (stream : List Symbol) (d : Defined) :
    Prop where
  symbols : RomAsm.Genuine Place d.symbols
  tags : ∀ entry ∈ d.tags, entry.2.isSome = true
  pending : ∀ name ∈ d.pending, ∃ s ∈ stream, s.isIdentifier = true ∧ s.text = name

/-- A pending name stands in a longer stream too. -/
theorem Defined.Genuine.exists_cons {stream : List Symbol} {d : Defined}
    (h : d.Genuine Place stream) {s : Symbol} {name : String} (hname : name ∈ d.pending) :
    ∃ t ∈ s :: stream, t.isIdentifier = true ∧ t.text = name := by
  obtain ⟨t, ht, hname⟩ := h.pending name hname
  exact ⟨t, List.mem_cons_of_mem s ht, hname⟩

/-- **Definitions are taken out** of a genuine stream, which leaves it genuine. -/
theorem define_ends {symbols : List Symbol} (hsymbols : Genuine Place symbols) {tags : Table Value}
    (htags : ∀ entry ∈ tags, entry.2.isSome = true) (definitions : Table (Option Location)) :
    Ends (Defined.Genuine Place symbols) (Reported Place)
      (define tags definitions symbols).outcome := by
  fun_induction define tags definitions symbols with
  | case1 tags definitions => exact ⟨hsymbols, htags, nofun⟩
  | case2 tags definitions s following ih ihrest =>
    refine Ends.trace_bind (t := liftM (role tags definitions s following))
      (role_ends hsymbols.head hsymbols.tail tags definitions) fun r _ hr => ?_
    cases r with
    -- the symbol stays, and the names that are pending stand behind it
    | plain =>
      refine (ih hsymbols.tail htags).trace_bind fun d _ hd => ?_
      exact ⟨List.forall_mem_cons.2 ⟨hsymbols.head, hd.symbols⟩, hd.tags,
        fun name hname => hd.exists_cons hname⟩
    | pending =>
      refine (ih hsymbols.tail htags).trace_bind fun d _ hd => ?_
      refine ⟨List.forall_mem_cons.2 ⟨hsymbols.head, hd.symbols⟩, hd.tags, ?_⟩
      intro name hname
      rcases List.mem_cons.1 hname with rfl | hname
      · exact ⟨s, List.mem_cons_self, hr, rfl⟩
      · exact hd.exists_cons hname
    | literal value =>
      obtain ⟨n, rfl⟩ := Option.isSome_iff_exists.1 hr
      have hput := isSome_of_mem_put htags s.text n
      refine (numeral_ends n).trace_bind fun shown _ _ => ?_
      match following with
      | [] | [_] => exact ⟨nofun, hput, nofun⟩
      | equals :: value :: rest =>
        refine (ihrest (some n) hsymbols.tail.tail.tail hput).trace_bind fun d _ hd => ?_
        refine ⟨hd.symbols, hd.tags, fun name hname => ?_⟩
        -- a definition that leaves the stream takes no pending name with it
        obtain ⟨t, ht, hname⟩ := hd.pending name hname
        exact ⟨t, by simp [ht], hname⟩

/-- **Names are replaced** by genuine numbers at the same places. -/
theorem substitute_ends {symbols : List Symbol} (hsymbols : Genuine Place symbols)
    {tags : Table Value} (htags : ∀ entry ∈ tags, entry.2.isSome = true) :
    Ends (fun result => Genuine Place result.1) (Reported Place) (substitute tags symbols) := by
  induction symbols with
  | nil => exact hsymbols
  | cons s following ih =>
    have hlater := ih hsymbols.tail
    rw [substitute]
    -- a name with a value, a name without one, and all other symbols
    split
    · split
      · next value hvalue =>
        -- the literal stands where the name did
        obtain ⟨n, rfl⟩ := Option.isSome_iff_exists.1 (htags _ (Table.mem_of_get? hvalue))
        refine (genuine_ofValue hsymbols.head.place n).bind fun t _ ht => ?_
        exact hlater.bind fun more _ hmore => List.forall_mem_cons.2 ⟨ht, hmore⟩
      · exact hlater.bind fun more _ hmore => List.forall_mem_cons.2 ⟨hsymbols.head, hmore⟩
    · exact hlater.bind fun more _ hmore => List.forall_mem_cons.2 ⟨hsymbols.head, hmore⟩

/-- A reduction puts a number in the place of numbers. -/
theorem push_ends (top : Symbol) (below : List Symbol) (htop : top.Genuine Place)
    (hbelow : Genuine Place below) :
    Ends (fun result => Genuine Place result.1) (Reported Place) (push top below) := by
  fun_induction push top below with
  -- a number in parentheses is pushed again by itself
  | case1 top middle left below hgroup ih =>
    exact (ih hbelow.head hbelow.tail.tail).bind fun _ _ h => h
  | case2 top middle left below _ hoperation ih =>
    simp only [Bool.and_eq_true] at hoperation
    obtain ⟨⟨hleft, -⟩, htopInteger⟩ := hoperation
    -- both operands are integers, so they have values; the result stands where the left one did
    obtain ⟨n, hn, -⟩ := hbelow.tail.head.number hleft
    obtain ⟨m, hm, -⟩ := htop.number htopInteger
    rw [hn, hm]
    refine (evaluate_ends hbelow.head n m).bind fun value _ _ => ?_
    refine (genuine_ofValue hbelow.tail.head.place value).bind fun t _ ht => ?_
    exact (ih t ht hbelow.tail.tail).bind fun _ _ h => h
  | case3 top middle left below => exact List.forall_mem_cons.2 ⟨htop, hbelow⟩
  | case4 top below => exact List.forall_mem_cons.2 ⟨htop, hbelow⟩

/-- **Groups are folded** into genuine numbers. -/
theorem foldFrom_ends {symbols : List Symbol} (hsymbols : Genuine Place symbols)
    {stack : List Symbol} (hstack : Genuine Place stack) :
    Ends (fun result => Genuine Place result.1) (Reported Place) (foldFrom stack symbols) := by
  induction symbols generalizing stack with
  -- the stack is the stream turned round
  | nil => exact fun s hs => hstack s (List.mem_reverse.1 hs)
  | cons s rest ih =>
    refine (push_ends s stack hsymbols.head hstack).bind fun pushed _ hpushed => ?_
    exact (ih hsymbols.tail hpushed).bind fun _ _ h => h

/-- The constants that are pending stand in the stream. -/
def Round.PendingIn (r : Round) (symbols : List Symbol) : Prop :=
  ∀ name ∈ r.pending, ∃ s ∈ symbols, s.isIdentifier = true ∧ s.text = name

/-- **One round** keeps a program genuine. -/
theorem round_ends {p : Program} (hp : p.Genuine Place) :
    Ends (fun r => r.program.Genuine Place ∧ r.PendingIn p.symbols) (Reported Place)
      (round p).outcome := by
  refine (define_ends hp.symbols hp.tags p.definitions).trace_bind fun d _ hd => ?_
  refine Ends.trace_bind (t := liftM (substitute d.tags d.symbols))
    (substitute_ends hd.symbols hd.tags) fun substituted _ hsubstituted => ?_
  refine Ends.trace_bind (t := liftM (fold substituted.1))
    (foldFrom_ends hsubstituted nofun) fun folded _ hfolded => ?_
  exact ⟨⟨hfolded, hd.tags⟩, hd.pending⟩

/-- **All rounds** keep a program genuine. The last of them has changed nothing, so its pending
constants still stand in the stream. -/
theorem settle_ends {p : Program} (hp : p.Genuine Place) (rounds : Nat) :
    Ends (fun result => result.2.program.Genuine Place ∧
      result.2.PendingIn result.2.program.symbols) (Reported Place) (settle rounds p).outcome := by
  -- by the weight of the stream, as the rounds themselves
  induction hn : weight p.symbols using Nat.strongRecOn generalizing p rounds with
  | ind n ih =>
    have hround := round_ends hp
    cases hr : (round p).outcome with
    | error failure =>
      rw [settle_of_error hr]
      exact hround.of_error hr
    | ok r =>
      obtain ⟨hprogram, hpending⟩ := hround.of_ok hr
      cases hprogress : r.progressed with
      | false =>
        rw [settle_of_rest hr hprogress]
        -- the round has not changed the stream in which its pending names stand
        rw [← round_unchanged hr hprogress] at hpending
        exact ⟨hprogram, hpending⟩
      | true =>
        rw [settle_of_progress hr hprogress]
        exact ih _ (hn ▸ weight_round_lt hr hprogress) hprogram (rounds + 1) rfl

/-- A name without a value stands in the stream, so its report has a place. -/
theorem check_ends {r : Round} (hprogram : r.program.Genuine Place)
    (hpending : r.PendingIn r.program.symbols) :
    Ends (fun _ => True) (Reported Place) (check r) := by
  unfold check
  split
  · next name names hnames =>
    -- the name is that of a constant which is pending, or of an operand
    have hname : ∃ s ∈ r.program.symbols, s.isIdentifier = true ∧ s.text = name := by
      have hmem : name ∈ undefinedNames r := by
        rw [hnames]
        exact List.mem_cons_self
      rw [undefinedNames_eq] at hmem
      rcases List.mem_append.1 hmem with hmem | hmem
      · exact hpending name hmem
      · simp only [List.mem_eraseDups, List.mem_filter, List.mem_map] at hmem
        obtain ⟨⟨s, ⟨hs, hidentifier⟩, htext⟩, -⟩ := hmem
        exact ⟨s, hs, hidentifier, htext⟩
    obtain ⟨s, hs, hidentifier, htext⟩ := hname
    -- so looking for its first occurrence does not miss
    have hfound :
        (r.program.symbols.find? fun s => s.isIdentifier && s.text == name).isSome = true :=
      List.find?_isSome.2 ⟨s, hs, by simp [hidentifier, htext]⟩
    obtain ⟨t, ht⟩ := Option.isSome_iff_exists.1 hfound
    rw [ht]
    exact .report (hprogram.symbols t (List.mem_of_find?_eq_some ht)).place _
  · split
    · next s hs => exact .report (hprogram.symbols s (List.mem_of_find?_eq_some hs)).place _
    · trivial

/-- Names with values can be logged, if the values are not too long. -/
theorem recordTags_ends {tags : Table Value} (htags : ∀ entry ∈ tags, entry.2.isSome = true) :
    Ends (fun _ => True) (Reported Place) (recordTags tags).outcome := by
  induction tags with
  | nil => trivial
  | cons entry rest ih =>
    obtain ⟨hentry, hrest⟩ := List.forall_mem_cons.1 htags
    obtain ⟨name, value⟩ := entry
    obtain ⟨n, rfl⟩ := Option.isSome_iff_exists.1 hentry
    -- the values are logged one by one
    exact (numeral_ends n).trace_bind fun _ _ _ => ih hrest

/-- **Resolution** ends in a genuine program without names and operators, or in a report. -/
theorem resolve_ends {p : Program} (hp : p.Genuine Place) :
    Ends (fun q => q.Genuine Place ∧ ∀ s ∈ q.symbols, s.isInert = true) (Reported Place)
      (resolve p).outcome := by
  refine (settle_ends hp 0).trace_bind fun result _ ⟨hprogram, hpending⟩ => ?_
  refine Ends.trace_bind (t := liftM (check result.2)) (check_ends hprogram hpending)
    fun _ hcheck _ => ?_
  refine (recordTags_ends hprogram.tags).trace_bind fun _ _ _ => ?_
  exact ⟨hprogram, isInert_of_check hcheck⟩

end Resolution

/-! ### Statements -/

namespace Generation

theorem emit_ends (bytes : List UInt8) :
    Ends (fun _ => True) (Reported Place) (emit bytes).outcome :=
  trivial

/-- A warning is written, or its place is too long. -/
theorem warning_ends (problem : Problem) (operand : Symbol) :
    Ends (fun _ => True) (Reported Place) (warning problem operand) := by
  have hplace : Ends (fun _ => True) (Reported Place) (placeText operand.location) := by
    unfold placeText
    split
    · next l _ =>
      unfold Location.written
      split
      · trivial
      · exact Reported.tooLarge
    · trivial
  exact hplace.bind fun _ _ _ => trivial

/-- A value that does not fit is reported where it stands. -/
theorem report_ends (strict : Bool) (problem : Problem) {operand : Symbol}
    (hplace : Place operand.location) :
    Ends (fun _ => True) (Reported Place) (report strict problem operand).outcome := by
  unfold report
  split
  · exact Reported.report hplace _
  · exact (warning_ends problem operand).trace_bind fun _ _ _ => trivial

/-- A number is put into its field, or reported. -/
theorem inRange_ends (strict : Bool) {operand : Symbol} (h : operand.Genuine Place)
    (hinteger : operand.isInteger = true) (bits : Nat) :
    Ends (fun _ => True) (Reported Place) (inRange strict operand bits).outcome := by
  obtain ⟨n, hn, -⟩ := h.number hinteger
  unfold inRange
  rw [hn]
  dsimp only
  split
  · trivial
  · refine (numeral_ends n).trace_bind fun _ _ _ => ?_
    exact (report_ends strict _ h.place).trace_bind fun _ _ _ => trivial

/-- A field needs a number. Where there is none, what stands there is reported, or the head if
nothing does. -/
theorem number_ends {owner : Symbol} (howner : owner.Genuine Place) {s : Option Symbol}
    (hs : ∀ t ∈ s, t.Genuine Place) :
    Ends (fun t => t.Genuine Place ∧ t.isInteger = true) (Reported Place) (number owner s) := by
  cases s with
  | none => exact .report howner.place _
  | some t =>
    -- the match on the symbol is opened by hand
    show Ends _ _ (if t.isInteger then .ok t else _)
    split
    · next hinteger => exact ⟨hs t rfl, hinteger⟩
    · exact .report (hs t rfl).place _

/-- A genuine marker has a mode. -/
theorem isMarked_ends {following : List Symbol} (hfollowing : Genuine Place following)
    (mode : Machine.Mode) :
    Ends (fun _ => True) (Reported Place) (isMarked mode following) := by
  cases following with
  | nil => trivial
  | cons s rest =>
    obtain ⟨selected, hselected⟩ := hfollowing.head.exists_mode
    show Ends _ _ (s.mode?.map _)
    rw [hselected]
    trivial

/-- The operand of a statement in a field of the given width. -/
theorem field_ends (strict : Bool) {owner : Symbol} (howner : owner.Genuine Place)
    {s : Option Symbol} (hs : ∀ t ∈ s, t.Genuine Place) (bits : Nat) {α : Type}
    (f : Int → Emission α) (hf : ∀ n, (f n).outcome.isOk = true) :
    Ends (fun _ => True) (Reported Place) (do
      let operand ← number owner s
      let n ← inRange strict operand bits
      f n : Emission α).outcome := by
  refine Ends.trace_bind (t := liftM (number owner s)) (number_ends howner hs)
    fun operand _ ⟨hoperand, hinteger⟩ => ?_
  refine (inRange_ends strict hoperand hinteger bits).trace_bind fun n _ _ => ?_
  have hok := hf n
  cases hn : (f n).outcome with
  | ok a => trivial
  | error failure =>
    rw [hn] at hok
    cases hok

/-- An instruction is laid down, or its failure is reported. -/
theorem instruction_ends (strict : Bool) {m : Symbol} {following : List Symbol}
    (hm : m.Genuine Place) (hfollowing : Genuine Place following) :
    Ends (fun _ => True) (Reported Place) (instruction strict m following).outcome := by
  refine Ends.trace_bind (t := liftM (Operand.mode m following)) (Operand.mode_ends hm hfollowing)
    fun mode _ _ => ?_
  refine Ends.trace_bind (t := liftM (Operand.instruction m following))
    (Operand.instruction_ends hm hfollowing) fun i _ _ => ?_
  refine (emit_ends [i.opcode]).trace_bind fun _ _ _ => ?_
  -- only the modes with an operand can fail from here on
  cases mode with
  | direct =>
    exact field_ends strict hm (fun t ht => hfollowing t (List.mem_of_mem_head? ht)) _ _
      fun _ => rfl
  | immediate =>
    exact field_ends strict hm (fun t ht => hfollowing t (List.mem_of_getElem? ht)) _ _
      fun _ => rfl
  | accumulator | stack =>
    exact Ends.trace_bind (t := liftM (isMarked _ following)) (isMarked_ends hfollowing _)
      fun _ _ _ => trivial
  | inherent => trivial

/-- The characters of a string are laid down, or one of them is reported. -/
theorem characters_ends (strict : Bool) {operand : Symbol} (hplace : Place operand.location)
    (text : List Char) :
    Ends (fun _ => True) (Reported Place) (characters strict operand text).outcome := by
  induction text with
  | nil => trivial
  | cons c rest ih =>
    have hrest : Ends (fun _ => True) (Reported Place) (do
        emit (Field.immediate c.toNat)
        characters strict operand rest : Emission Unit).outcome :=
      (emit_ends _).trace_bind fun _ _ _ => ih
    unfold characters
    dsimp only
    cases hfits : Field.fits c.toNat Field.immediateBits with
    | true => exact hrest
    | false => exact (report_ends strict _ hplace).trace_bind fun _ _ _ => hrest

/-- A directive asks for zeros: `.reserve` for a number of them, `.org` up to an address. -/
inductive AsksZeros (address : Nat) (d : Symbol) (following : List Symbol) : Nat → Prop where
  | reserve {n : Nat} (hdirective : d.kind = .directive) (htext : d.text = ".reserve")
      (h : Operand.reserve d following = .ok n) : AsksZeros address d following n
  | origin {target : Nat} (hdirective : d.kind = .directive) (htext : d.text = ".org")
      (h : Operand.origin d following = .ok target) (hle : address ≤ target) :
      AsksZeros address d following (target - address)

/-- The failures of a statement: those that are reported, and zeros that cannot be laid down. -/
inductive Unfinished (Place : Option Location → Prop) (address : Nat) (d : Symbol)
    (following : List Symbol) : Failure → Prop where
  | reported {f : Failure} (h : Reported Place f) : Unfinished Place address d following f
  | excess {n : Nat} {e : Excess} (hn : AsksZeros address d following n)
      (he : Excess.ofBytes? n = some e) : Unfinished Place address d following (.excess e)

/-- Zeros are laid down, or are more than can be. -/
theorem emitZeros_ends {address n : Nat} {d : Symbol} {following : List Symbol}
    (hn : AsksZeros address d following n) :
    Ends (fun _ => True) (Unfinished Place address d following) (emitZeros n).outcome := by
  unfold emitZeros
  split
  · next e he => exact Unfinished.excess hn he
  · trivial

/-- The data of a directive can be laid down once all groups are gone. -/
theorem encode_data_ends {d operand : Symbol} {following : List Symbol} {n : Nat}
    (hfollowing : Genuine Place following) (hinert : ∀ s ∈ following, s.isInert = true)
    (hliteral : Operand.literal d following = .ok operand) (hn : operand.value = some (n : Int)) :
    Ends (fun _ => True) (Reported Place)
      ((DataLiteral.encode operand.text).mapError .numeral) := by
  rcases Operand.literal_cases hliteral with ⟨hoperand, rest, rfl⟩ |
    ⟨opening, zero, minus, l, closing, rest, m, rfl, hopening, -⟩
  · obtain ⟨k, hk, hspelled⟩ := hfollowing.head.number hoperand
    obtain rfl := Option.some.inj (hk.symm.trans hn)
    obtain ⟨l, hl⟩ := hspelled (Int.natCast_nonneg n)
    rw [DataLiteral.encode_literal hl]
    trivial
  · -- a parenthesis is an operator
    have hkind : opening.kind = .operator := beq_iff_eq.1 (Bool.and_eq_true_iff.1 hopening).1
    have := hinert opening List.mem_cons_self
    simp [Symbol.isInert, hkind] at this

/-- **A directive** is laid down, or its failure is reported, or it asks for too many zeros. -/
theorem directive_ends (strict : Bool) (address : Nat) {d : Symbol} {following : List Symbol}
    (hd : d.Genuine Place) (hfollowing : Genuine Place following)
    (hinert : ∀ s ∈ following, s.isInert = true) (hdirective : d.kind = .directive) :
    Ends (fun _ => True) (Unfinished Place address d following)
      (directive strict address d following).outcome := by
  have hreported : ∀ {α : Type} {good : α → Prop} {x : Except Failure α},
      Ends good (Reported Place) x → Ends good (Unfinished Place address d following) x :=
    fun h => h.worse fun _ => .reported
  -- in the order in which the directives are listed
  unfold directive
  split
  · next htext =>
    refine Ends.trace_bind (t := liftM (Operand.reserve d following))
      (hreported (Operand.amount_ends hd hfollowing _)) fun n hn _ => ?_
    exact emitZeros_ends (.reserve hdirective htext hn)
  · next htext =>
    refine Ends.trace_bind (t := liftM (Operand.origin d following))
      (hreported (Operand.amount_ends hd hfollowing _)) fun target htarget _ => ?_
    split
    · exact .reported (Reported.report hd.place _)
    · next hle => exact emitZeros_ends (.origin hdirective htext htarget (Nat.not_lt.1 hle))
  · exact hreported (field_ends strict hd
      (fun t ht => hfollowing t (List.mem_of_mem_head? ht)) _ _ fun _ => rfl)
  · refine Ends.trace_bind (t := liftM (Operand.string d following))
      (hreported (Operand.string_ends hd hfollowing)) fun text _ _ => ?_
    refine Ends.trace_bind (t := liftM (Operand.first d following))
      (hreported (Operand.first_ends hd hfollowing)) fun operand _ hoperand => ?_
    exact (hreported (characters_ends strict hoperand.place _)).trace_bind fun _ _ _ => trivial
  · refine Ends.trace_bind (t := liftM (Operand.data d following))
      (hreported (Operand.data_ends hd hfollowing)) fun operand _ ⟨hliteral, n, hn⟩ => ?_
    exact Ends.trace_bind (t := liftM ((DataLiteral.encode operand.text).mapError Failure.numeral))
      (hreported (encode_data_ends hfollowing hinert hliteral hn)) fun _ _ _ => trivial
  · exact .reported (Reported.report hd.place _)

/-- **One statement** is laid down, or its failure is reported, or it asks for too many zeros. -/
theorem statement_ends (strict : Bool) (address : Nat) {s : Symbol} {following : List Symbol}
    (hs : s.Genuine Place) (hfollowing : Genuine Place following)
    (hinert : ∀ t ∈ following, t.isInert = true) :
    Ends (fun _ => True) (Unfinished Place address s following)
      (statement strict address s following).outcome := by
  have hencode : Ends (fun _ => True) (Unfinished Place address s following)
      (encode strict address s following).outcome := by
    unfold encode
    split
    · exact (instruction_ends strict hs hfollowing).worse fun _ => .reported
    · next hdirective =>
      exact (directive_ends strict address hs hfollowing hinert hdirective).trace_bind
        fun _ _ _ => trivial
    · exact .reported (Reported.report hs.place _)
  refine hencode.trace_bind fun _ _ _ => ?_
  exact ((numeral_ends _).worse fun _ => .reported).trace_bind fun _ _ _ => trivial

/-! ### Streams -/

/-- The statements of a stream that are laid down are its beginning. The rest is empty, or begins
with the statement that has failed. -/
theorem encodeFrom_rest (strict : Bool) (address : Nat) (symbols : List Symbol) :
    let encoded := encodeFrom strict address symbols
    ∃ rest, symbols = encoded.statements.flatMap (·.symbols) ++ rest ∧
      (rest = [] ∧ encoded.outcome = .ok () ∨
        ∃ d following f, rest = d :: following ∧ encoded.outcome = .error f ∧
          (statement strict (address + (encoded.statements.flatMap (·.bytes)).length) d
            following).outcome = .error f) := by
  -- by the length of the stream, since a statement may take several symbols
  induction hn : symbols.length using Nat.strongRecOn generalizing address symbols with
  | ind n ih =>
    match symbols with
    | [] =>
      rw [encodeFrom]
      exact ⟨[], rfl, .inl ⟨rfl, rfl⟩⟩
    | s :: following =>
      rw [encodeFrom]
      dsimp only
      cases hstatement : (statement strict address s following).outcome with
      | error f => exact ⟨s :: following, rfl, .inr ⟨s, following, f, rfl, rfl, hstatement⟩⟩
      -- the rest of the stream behind this statement is the rest of the stream
      | ok taken =>
        have hlength : (following.drop taken).length < n := by
          simp only [List.length_drop, ← hn, List.length_cons]
          omega
        obtain ⟨rest, hrest, hend⟩ := ih _ hlength
          (address + ((statement strict address s following).entries.flatMap
            Event.laidDown).length) (following.drop taken) rfl
        refine ⟨rest, ?_, ?_⟩
        · rw [List.flatMap_cons, List.append_assoc, ← hrest, List.cons_append,
            List.take_append_drop]
        · rw [List.flatMap_cons, List.length_append, ← Nat.add_assoc]
          exact hend

/-- The encoding of a program comes to a directive that asks for so many zeros. -/
def ReachesZeros (strict : Bool) (p : Program) (n : Nat) : Prop :=
  let encoded := encodeFrom strict 0 p.symbols
  ∃ d following, p.symbols = encoded.statements.flatMap (·.symbols) ++ d :: following ∧
    AsksZeros (encoded.statements.flatMap (·.bytes)).length d following n

/-- **Generation** ends in code, in a report, or at zeros that cannot be laid down. -/
theorem generate_ends (g : Generator) (strict : Bool) {p : Program} (hp : p.Genuine Place)
    (hinert : ∀ s ∈ p.symbols, s.isInert = true) :
    Ends (fun _ => True) (fun f => Reported Place f ∨
      ∃ n e, ReachesZeros strict p n ∧ Excess.ofBytes? n = some e ∧ f = .excess e)
      (g.generate strict p).outcome := by
  cases hgenerate : (g.generate strict p).outcome with
  | ok code => trivial
  | error f =>
    have hencode := Generator.outcome_generate_error.1 hgenerate
    obtain ⟨rest, hrest, ⟨-, hok⟩ | ⟨d, following, f', rfl, herror, hstatement⟩⟩ :=
      encodeFrom_rest strict 0 p.symbols
    · cases hok.symm.trans hencode
    · obtain rfl := Except.error.inj (herror.symm.trans hencode)
      rw [Nat.zero_add] at hstatement
      -- the statement that fails stands in the stream, so it is genuine
      have hmem : ∀ s ∈ d :: following, s ∈ p.symbols := by
        intro s hs
        rw [hrest]
        exact List.mem_append_right _ hs
      have hd : d.Genuine Place := hp.symbols d (hmem d List.mem_cons_self)
      have hfollowing : Genuine Place following := fun s hs =>
        hp.symbols s (hmem s (List.mem_cons_of_mem d hs))
      have hinert : ∀ s ∈ following, s.isInert = true := fun s hs =>
        hinert s (hmem s (List.mem_cons_of_mem d hs))
      cases (statement_ends strict _ hd hfollowing hinert).of_error hstatement with
      | reported h => exact .inl h
      | excess hn he => exact .inr ⟨_, _, ⟨d, following, hrest, hn⟩, he, rfl⟩

/-- A statement that asks for too many zeros fails for that reason. -/
theorem statement_of_asksZeros (strict : Bool) {address n : Nat} {d : Symbol}
    {following : List Symbol} {e : Excess} (hn : AsksZeros address d following n)
    (he : Excess.ofBytes? n = some e) :
    (statement strict address d following).outcome = .error (.excess e) := by
  have hzeros : (emitZeros n).outcome = .error (.excess e) := by
    rw [emitZeros, he]
    rfl
  have hdirective : (directive strict address d following).outcome = .error (.excess e) := by
    cases hn with
    | reserve _ htext h =>
      simp only [directive, htext, Trace.outcome_bind, Trace.outcome_liftM, h,
        Trace.except_ok_bind, hzeros]
    | origin _ htext h hle =>
      simp only [directive, htext, Trace.outcome_bind, Trace.outcome_liftM, h,
        Trace.except_ok_bind, if_neg (Nat.not_lt.2 hle), hzeros]
  have hkind : d.kind = .directive := by
    cases hn with
    | reserve hkind => exact hkind
    | origin hkind => exact hkind
  have hencode : (encode strict address d following).outcome = .error (.excess e) := by
    simp only [encode, hkind, Trace.outcome_bind, hdirective, Trace.except_error_bind]
  rw [statement, Trace.outcome_bind, hencode]
  rfl

/-- Zeros that cannot be laid down end the run when they are reached. -/
theorem generate_of_reachesZeros (g : Generator) {strict : Bool} {p : Program} {n : Nat}
    {e : Excess} (h : ReachesZeros strict p n) (he : Excess.ofBytes? n = some e) :
    (g.generate strict p).outcome = .error (.excess e) := by
  obtain ⟨d, following, hsymbols, hn⟩ := h
  obtain ⟨rest, hrest, hend⟩ := encodeFrom_rest strict 0 p.symbols
  -- the directive is where encoding has stopped, as the statements before it are the same
  obtain rfl := List.append_cancel_left (hsymbols.symm.trans hrest)
  rcases hend with ⟨hnil, -⟩ | ⟨_, _, f, heq, houtcome, hstatement⟩
  · cases hnil
  · cases heq
    rw [Nat.zero_add] at hstatement
    obtain rfl := Except.error.inj (hstatement.symm.trans (statement_of_asksZeros strict hn he))
    exact Generator.outcome_generate_error.2 houtcome

end Generation

end RomAsm
