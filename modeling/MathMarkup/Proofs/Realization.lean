import MathMarkup.Proofs.Grammar

/-!
# The readers realize the grammar

A reader realizes a relation if it succeeds exactly where the relation holds, with the
same value and the same tokens left, whatever stands before its place. The laws of the
first section take readers apart; the others go through the readers of a formula.
-/

namespace MathMarkup.Tex.Grammar

/-- From the given tokens the reader takes exactly what the relation allows. -/
def RealizesAt {α : Type} (input : List Token) (reader : Reader α)
    (taken : α → List Token → Prop) : Prop :=
  ∀ before value rest,
    (∃ passed, reader ⟨before, input⟩ = .ok value ⟨passed, rest⟩) ↔ taken value rest

/-- From all tokens the reader takes exactly what the relation allows. -/
def Realizes {α : Type} (reader : Reader α) (reading : ReadingOf α) : Prop :=
  ∀ input, RealizesAt input reader (reading input)

namespace RealizesAt

variable {α β : Type} {input : List Token}

theorem congr {reader : Reader α} {taken expected : α → List Token → Prop}
    (realizes : RealizesAt input reader taken)
    (same : ∀ value rest, taken value rest ↔ expected value rest) :
    RealizesAt input reader expected := fun before value rest =>
  (realizes before value rest).trans (same value rest)

theorem pure (value : α) :
    RealizesAt input (Pure.pure value) fun result rest => result = value ∧ rest = input := by
  intro before result rest
  constructor
  · rintro ⟨passed, read⟩
    cases read
    exact ⟨rfl, rfl⟩
  · rintro ⟨rfl, rfl⟩
    exact ⟨before, rfl⟩

theorem throw (cause : ParseError) :
    RealizesAt input (MonadExcept.throw cause : Reader α) fun _ _ => False := by
  intro before result rest
  constructor
  · rintro ⟨passed, read⟩
    cases read
  · exact False.elim

/-- A reader after another starts from the tokens that the first leaves. -/
theorem bind {first : Reader α} {next : α → Reader β} {taken : α → List Token → Prop}
    (realizes : RealizesAt input first taken)
    (takenNext : α → List Token → β → List Token → Prop)
    (realizesNext : ∀ value middle, taken value middle →
      RealizesAt middle (next value) (takenNext value middle)) :
    RealizesAt input (first >>= next) fun result rest =>
      ∃ value middle, taken value middle ∧ takenNext value middle result rest := by
  intro before result rest
  constructor
  · rintro ⟨passed, read⟩
    change EStateM.bind first next ⟨before, input⟩ = _ at read
    unfold EStateM.bind at read
    split at read
    · rename_i value middle firstRead
      have here := (realizes before value middle.after).mp ⟨middle.before, firstRead⟩
      exact ⟨value, middle.after, here,
        (realizesNext value middle.after here middle.before result rest).mp ⟨passed, read⟩⟩
    · cases read
  · rintro ⟨value, middle, here, there⟩
    obtain ⟨between, firstRead⟩ := (realizes before value middle).mpr here
    obtain ⟨passed, read⟩ :=
      (realizesNext value middle here between result rest).mpr there
    refine ⟨passed, ?_⟩
    change EStateM.bind first next ⟨before, input⟩ = _
    unfold EStateM.bind
    rw [firstRead]
    exact read

theorem remaining_bind {next : List Token → Reader β} {taken : β → List Token → Prop}
    (realizes : RealizesAt input (next input) taken) :
    RealizesAt input (Reader.remaining >>= next) taken := realizes

theorem previous_bind {next : Option Token → Reader β} {taken : β → List Token → Prop}
    (realizes : ∀ previous, RealizesAt input (next previous) taken) :
    RealizesAt input (Reader.previous? >>= next) taken := fun before =>
  realizes before.head? before

theorem skip_bind {count : Nat} {next : Unit → Reader β} {taken : β → List Token → Prop}
    (realizes : RealizesAt (input.drop count) (next ()) taken) :
    RealizesAt input (Reader.skip count >>= next) taken := fun before =>
  realizes ((input.take count).reverse ++ before)

/-- Reading the next token needs one. -/
theorem peek_bind_nil {next : Token → Reader β} :
    RealizesAt [] (Reader.peek >>= next) fun _ _ => False := by
  intro before result rest
  constructor
  · rintro ⟨passed, read⟩
    cases read
  · exact False.elim

theorem peek_bind_cons {token : Token} {tail : List Token} {next : Token → Reader β}
    {taken : β → List Token → Prop}
    (realizes : RealizesAt (token :: tail) (next token) taken) :
    RealizesAt (token :: tail) (Reader.peek >>= next) taken := realizes

theorem take_bind_cons {token : Token} {tail : List Token} {next : Token → Reader β}
    {taken : β → List Token → Prop} (realizes : RealizesAt tail (next token) taken) :
    RealizesAt (token :: tail) (Reader.take >>= next) taken := fun before =>
  realizes (token :: before)

theorem check_bind_ok {value : α} {next : α → Reader β} {taken : β → List Token → Prop}
    (realizes : RealizesAt input (next value) taken) :
    RealizesAt input (Reader.check (.ok value) >>= next) taken := realizes

theorem check_bind_error {cause : ParseError} {next : α → Reader β} :
    RealizesAt input (Reader.check (.error cause) >>= next) fun _ _ => False := by
  intro before result rest
  constructor
  · rintro ⟨passed, read⟩
    cases read
  · exact False.elim

theorem check_bind {result : Except ParseError α} {next : α → Reader β}
    (taken : α → β → List Token → Prop)
    (realizes : ∀ value, result = .ok value → RealizesAt input (next value) (taken value)) :
    RealizesAt input (Reader.check result >>= next) fun final rest =>
      ∃ value, result = .ok value ∧ taken value final rest := by
  cases result with
  | error cause => exact check_bind_error.congr (by simp)
  | ok value => exact (realizes value rfl).congr (by simp)

/-- The place of a reader does not move while it reads another list. -/
theorem within {tokens : List Token} {reader : Reader α} {taken : α → List Token → Prop}
    (realizes : RealizesAt tokens reader taken) :
    RealizesAt input (Reader.within tokens reader) fun value rest =>
      rest = input ∧ ∃ left, taken value left := by
  intro before value rest
  unfold Reader.within
  constructor
  · rintro ⟨passed, read⟩
    split at read
    · rename_i _ stopped innerRead
      cases read
      exact ⟨rfl, stopped.after, (realizes [] value stopped.after).mp ⟨stopped.before, innerRead⟩⟩
    · cases read
  · rintro ⟨rfl, left, holds⟩
    obtain ⟨passed, read⟩ := (realizes [] value left).mpr holds
    have started : reader (Cursor.ofTokens tokens) = .ok value ⟨passed, left⟩ := read
    refine ⟨before, ?_⟩
    simp only [started]

theorem throw_bind {cause : ParseError} {next : α → Reader β} :
    RealizesAt input ((MonadExcept.throw cause : Reader α) >>= next) fun _ _ => False :=
  check_bind_error

/-- A value that is passed on as another one. -/
theorem map {reader : Reader α} {taken : α → List Token → Prop} (change : α → β)
    (realizes : RealizesAt input reader taken) :
    RealizesAt input (reader >>= fun value => Pure.pure (change value)) fun result rest =>
      ∃ value, taken value rest ∧ result = change value := by
  refine (realizes.bind _ fun value middle _ => RealizesAt.pure (change value)).congr ?_
  intro result rest
  constructor
  · rintro ⟨value, middle, holds, rfl, rfl⟩
    exact ⟨value, holds, rfl⟩
  · rintro ⟨value, holds, rfl⟩
    exact ⟨value, rest, holds, rfl, rfl⟩

end RealizesAt

section Scripts

open MathMarkup.Tex.Parser

/-- The tokens do not start with a prime. -/
def NoPrime (tokens : List Token) : Prop :=
  tokens.head? ≠ some .prime

/-- A script where its mark stands, and none where it does not. -/
inductive ScriptAt (operand : Reading) (mark : Token.ScriptMark) : ReadingOf (Option Node) where
  | some {tail rest : List Token} {node : Node} (read : operand tail node rest) :
      ScriptAt operand mark (markToken mark :: tail) (some node) rest
  | none {input : List Token} (absent : input.head? ≠ some (markToken mark)) :
      ScriptAt operand mark input none input

/-- The primes at the front are a run of primes that no other prime follows. -/
theorem primeCount_eq_iff {input rest : List Token} {count : Nat} :
    (count = Token.primeCount input ∧ rest = input.drop (Token.primeCount input)) ↔
      input = List.replicate count .prime ++ rest ∧ NoPrime rest := by
  induction input generalizing count with
  | nil =>
    constructor
    · rintro ⟨rfl, rfl⟩
      exact ⟨rfl, by simp [NoPrime]⟩
    · rintro ⟨empty, -⟩
      obtain ⟨noPrimes, rfl⟩ := List.append_eq_nil_iff.mp empty.symm
      exact ⟨by simpa [Token.primeCount] using noPrimes, rfl⟩
  | cons token tail inductionHypothesis =>
    by_cases isPrime : token = .prime
    · subst isPrime
      have longer : Token.primeCount (.prime :: tail) = Token.primeCount tail + 1 := by
        simp [Token.primeCount]
      rw [longer]
      cases count with
      | zero =>
        constructor
        · rintro ⟨impossible, -⟩
          omega
        · rintro ⟨rfl, noPrime⟩
          exact absurd rfl noPrime
      | succ fewer =>
        simpa [List.replicate_succ] using @inductionHypothesis fewer
    · have none : Token.primeCount (token :: tail) = 0 := by
        simp [Token.primeCount, isPrime]
      rw [none]
      cases count with
      | zero =>
        constructor
        · rintro ⟨-, rfl⟩
          exact ⟨rfl, by simpa [NoPrime] using isPrime⟩
        · rintro ⟨rfl, -⟩
          exact ⟨rfl, rfl⟩
      | succ fewer =>
        constructor
        · rintro ⟨impossible, -⟩
          omega
        · rintro ⟨starts, -⟩
          rw [List.replicate_succ] at starts
          exact absurd (List.cons.inj starts).1 isPrime

theorem realizesAt_takePrimes (input : List Token) :
    RealizesAt input Reader.takePrimes fun count rest =>
      input = List.replicate count .prime ++ rest ∧ NoPrime rest := by
  apply RealizesAt.remaining_bind
  apply RealizesAt.skip_bind
  exact (RealizesAt.pure _).congr fun _ _ => primeCount_eq_iff

theorem realizesAt_refusePrime (input : List Token) :
    RealizesAt input refusePrime fun _ rest => rest = input ∧ NoPrime input := by
  apply RealizesAt.remaining_bind
  cases input with
  | nil => exact (RealizesAt.pure ()).congr (by simp [NoPrime])
  | cons token tail =>
    by_cases isPrime : token = .prime
    · simp only [isPrime, if_true]
      exact (RealizesAt.throw _).congr (by simp [NoPrime])
    · simp only [isPrime, if_false]
      exact (RealizesAt.pure ()).congr (by simp [NoPrime, isPrime])

theorem realizesAt_refuseScriptMark (input : List Token) :
    RealizesAt input refuseScriptMark fun _ rest =>
      rest = input ∧ ∀ token ∈ input.head?, token.scriptMark? = none := by
  apply RealizesAt.remaining_bind
  cases input with
  | nil => exact (RealizesAt.pure ()).congr (by simp)
  | cons token tail =>
    cases mark : token.scriptMark? with
    | none =>
      simp only [mark]
      exact (RealizesAt.pure ()).congr (by simp [mark])
    | some kind =>
      simp only [mark]
      cases kind <;> exact (RealizesAt.throw _).congr (by simp [mark])

variable {operand : Reader Node} {reading : Reading}

theorem realizes_script (realizes : Realizes operand reading) (progresses : Progresses reading)
    (mark : Token.ScriptMark) : Realizes (script? operand mark) (ScriptAt reading mark) := by
  intro input
  apply RealizesAt.remaining_bind
  cases input with
  | nil =>
    refine (RealizesAt.pure none).congr fun value rest => ⟨?_, ?_⟩
    · rintro ⟨rfl, rfl⟩
      exact .none (by simp)
    · rintro ⟨⟩
      exact ⟨rfl, rfl⟩
  | cons token tail =>
    by_cases marked : token.scriptMark? = some mark
    · simp only [marked, if_true]
      obtain rfl := scriptMark?_eq_some_iff.mp marked
      apply RealizesAt.skip_bind
      cases tail with
      | nil =>
        refine RealizesAt.throw_bind.congr fun value rest => ⟨False.elim, ?_⟩
        rintro ⟨read⟩
        · rcases progresses read with shorter | ⟨_, _, impossible, _⟩
          · simp at shorter
          · cases impossible
        · rename_i absent
          exact absent rfl
      | cons next others =>
        refine ((realizes (next :: others)).map some).congr fun value rest => ⟨?_, ?_⟩
        · rintro ⟨node, read, rfl⟩
          exact .some read
        · rintro ⟨read⟩
          · exact ⟨_, read, rfl⟩
          · rename_i absent
            exact absurd rfl absent
    · simp only [marked, if_false]
      refine (RealizesAt.pure none).congr fun value rest => ⟨?_, ?_⟩
      · rintro ⟨rfl, rfl⟩
        refine .none ?_
        rintro same
        exact marked (scriptMark?_eq_some_iff.mpr (Option.some.inj same))
      · rintro ⟨read⟩
        · exact absurd (scriptMark?_markToken mark) marked
        · exact ⟨rfl, rfl⟩

/-- The last script of a base: no prime follows, whether the script is there or not. -/
theorem realizesAt_lastScript (realizes : Realizes operand reading)
    (progresses : Progresses reading) (mark : Token.ScriptMark) {input : List Token}
    (noPrime : NoPrime input) (complete : Option Node → Parser.Scripts) :
    RealizesAt input
      (do
        let script ← script? operand mark
        if script.isSome then refusePrime
        return complete script)
      fun scripts rest => ∃ script, ScriptAt reading mark input script rest ∧ NoPrime rest ∧
        scripts = complete script := by
  refine ((realizes_script realizes progresses mark input).bind
    (fun script stop scripts rest => rest = stop ∧ NoPrime rest ∧ scripts = complete script)
    ?_).congr ?_
  · intro script stop read
    cases read with
    | some read =>
      refine ((realizesAt_refusePrime stop).map fun _ => complete _).congr ?_
      intro scripts rest
      constructor
      · rintro ⟨_, ⟨rfl, settled⟩, rfl⟩
        exact ⟨rfl, settled, rfl⟩
      · rintro ⟨rfl, settled, rfl⟩
        exact ⟨(), ⟨rfl, settled⟩, rfl⟩
    | none absent =>
      refine (RealizesAt.pure _).congr fun scripts rest => ?_
      constructor
      · rintro ⟨rfl, rfl⟩
        exact ⟨rfl, noPrime, rfl⟩
      · rintro ⟨rfl, -, rfl⟩
        exact ⟨rfl, rfl⟩
  · intro scripts rest
    constructor
    · rintro ⟨script, stop, read, rfl, settled, rfl⟩
      exact ⟨script, read, settled, rfl⟩
    · rintro ⟨script, read, settled, rfl⟩
      exact ⟨script, rest, read, rfl, settled, rfl⟩

/-- What follows a subscript or, where there is none, the primes. -/
inductive AfterSub (operand : Reading) (primes : Nat) :
    Option Node → List Token → Parser.Scripts → List Token → Prop where
  | some (morePrimes : Nat) {middle rest : List Token} {sub : Node} {sup : Option Node}
      (noPrime : NoPrime middle) (read : ScriptAt operand .superscript middle sup rest)
      (settled : NoPrime rest) :
      AfterSub operand primes (some sub) (List.replicate morePrimes .prime ++ middle)
        { primes := primes + morePrimes, sub := some sub, sup } rest
  | sup {input middle rest : List Token} {sup : Node} {sub : Option Node}
      (first : operand input sup middle) (noPrime : NoPrime middle)
      (read : ScriptAt operand .subscript middle sub rest) (settled : NoPrime rest) :
      AfterSub operand primes none (markToken .superscript :: input)
        { primes, sub, sup := some sup } rest
  | none {rest : List Token} (absent : rest.head? ≠ some (markToken .superscript)) :
      AfterSub operand primes none rest { primes } rest

/-- What follows a superscript that stands first or, where there is none, the primes. -/
def AfterSup (operand : Reading) (primes : Nat) :
    Option Node → List Token → Parser.Scripts → List Token → Prop
  | some sup, next, scripts, rest => NoPrime next ∧ ∃ sub,
      ScriptAt operand .subscript next sub rest ∧ NoPrime rest ∧
        scripts = { primes, sub, sup := some sup }
  | none, next, scripts, rest => scripts = { primes } ∧ rest = next

theorem realizesAt_scripts (realizes : Realizes operand reading) (progresses : Progresses reading)
    (input : List Token) :
    RealizesAt input (Parser.scripts operand) fun scripts rest => ∃ primes middle,
      (input = List.replicate primes .prime ++ middle ∧ NoPrime middle) ∧
      ∃ sub stop, ScriptAt reading .subscript middle sub stop ∧
        AfterSub reading primes sub stop scripts rest := by
  refine (realizesAt_takePrimes input).bind _ fun primes middle _ => ?_
  refine (realizes_script realizes progresses .subscript middle).bind _ fun sub stop _ => ?_
  cases sub with
  | some sub =>
    refine ((realizesAt_takePrimes stop).bind _ fun morePrimes next primesTaken =>
      realizesAt_lastScript realizes progresses .superscript primesTaken.2 fun sup =>
        { primes := primes + morePrimes, sub := some sub, sup }).congr fun scripts rest => ?_
    constructor
    · rintro ⟨morePrimes, next, ⟨rfl, noPrime⟩, sup, read, settled, rfl⟩
      exact .some morePrimes noPrime read settled
    · rintro (⟨morePrimes, noPrime, read, settled⟩ | _ | _)
      exact ⟨morePrimes, _, ⟨rfl, noPrime⟩, _, read, settled, rfl⟩
  | none =>
    refine ((realizes_script realizes progresses .superscript stop).bind
      (AfterSup reading primes) ?_).congr fun scripts rest => ?_
    · intro sup next _
      cases sup with
      | some sup =>
        refine ((realizesAt_refusePrime next).bind _ fun _ again refused =>
          realizesAt_lastScript realizes progresses .subscript (refused.1 ▸ refused.2) fun sub =>
            { primes, sub, sup := some sup }).congr fun scripts rest => ?_
        constructor
        · rintro ⟨_, _, ⟨rfl, noPrime⟩, read⟩
          exact ⟨noPrime, read⟩
        · rintro ⟨noPrime, read⟩
          exact ⟨(), next, ⟨rfl, noPrime⟩, read⟩
      | none => exact RealizesAt.pure _
    · constructor
      · rintro ⟨sup, next, read, taken⟩
        cases read with
        | some read =>
          obtain ⟨noPrime, sub, readSub, settled, rfl⟩ := taken
          exact .sup read noPrime readSub settled
        | none absent =>
          obtain ⟨rfl, rfl⟩ := taken
          exact .none absent
      · rintro (_ | ⟨first, noPrime, read, settled⟩ | absent)
        · exact ⟨_, _, .some first, noPrime, _, read, settled, rfl⟩
        · exact ⟨none, _, .none absent, rfl, rfl⟩

/-- The scripts are complete exactly if neither a prime nor a mark follows. -/
theorem settled_iff {rest : List Token} :
    Settled rest ↔ NoPrime rest ∧ ∀ token ∈ rest.head?, token.scriptMark? = none := by
  cases rest with
  | nil => simp [Settled, NoPrime]
  | cons token tail => simp [Settled, NoPrime]

/-- No mark announces a script after scripts that are complete. -/
theorem Settled.absent {rest : List Token} (settled : Settled rest) (mark : Token.ScriptMark) :
    rest.head? ≠ some (markToken mark) := by
  intro same
  have unmarked := (settled (markToken mark) same).2
  rw [scriptMark?_markToken] at unmarked
  cases unmarked

theorem noPrime_markToken (mark : Token.ScriptMark) (tail : List Token) :
    NoPrime (markToken mark :: tail) := by
  cases mark <;> simp [NoPrime, markToken, Token.prime]

/-- The reader goes through the scripts in the order of the rules. -/
theorem scriptsOf_iff {input rest : List Token} {scripts : Parser.Scripts}
    (settled : Settled rest) :
    (∃ primes middle, (input = List.replicate primes .prime ++ middle ∧ NoPrime middle) ∧
      ∃ sub stop, ScriptAt reading .subscript middle sub stop ∧
        AfterSub reading primes sub stop scripts rest) ↔
      ScriptsOf reading input scripts rest := by
  have noPrime := (settled_iff.mp settled).1
  constructor
  · rintro ⟨primes, middle, ⟨rfl, -⟩, sub, stop, first, after⟩
    cases after with
    | some morePrimes noPrime read =>
      obtain ⟨first⟩ := first
      cases read with
      | some second => exact .subSup primes morePrimes first second
      | none absent => exact .sub primes morePrimes first
    | sup second noPrime read =>
      obtain ⟨-⟩ := first
      cases read with
      | some third => exact .supSub primes second third
      | none absent => exact .sup primes second
    | none absent =>
      obtain ⟨-⟩ := first
      exact .none primes _
  · rintro (⟨primes⟩ | ⟨primes, morePrimes, script⟩ | ⟨primes, morePrimes, first, second⟩ |
      ⟨primes, script⟩ | ⟨primes, first, second⟩)
    · exact ⟨primes, rest, ⟨rfl, noPrime⟩, none, rest, .none (settled.absent _),
        .none (settled.absent _)⟩
    · exact ⟨primes, _, ⟨rfl, noPrime_markToken _ _⟩, _, _, .some script,
        .some morePrimes noPrime (.none (settled.absent _)) noPrime⟩
    · exact ⟨primes, _, ⟨rfl, noPrime_markToken _ _⟩, _, _, .some first,
        .some morePrimes (noPrime_markToken _ _) (.some second) noPrime⟩
    · exact ⟨primes, _, ⟨rfl, noPrime_markToken _ _⟩, none, _, .none (by simp [markToken]),
        .sup script noPrime (.none (settled.absent _)) noPrime⟩
    · exact ⟨primes, _, ⟨rfl, noPrime_markToken _ _⟩, none, _, .none (by simp [markToken]),
        .sup first (noPrime_markToken _ _) (.some second) noPrime⟩

/-- Whatever the scripts are, no prime follows them. -/
theorem noPrime_of_afterSub {primes : Nat} {sub : Option Node} {middle stop rest : List Token}
    {scripts : Parser.Scripts} (noPrime : NoPrime middle)
    (first : ScriptAt reading .subscript middle sub stop)
    (after : AfterSub reading primes sub stop scripts rest) : NoPrime rest := by
  cases after with
  | some morePrimes _ _ settled => exact settled
  | sup _ _ _ settled => exact settled
  | none absent =>
    obtain ⟨-⟩ := first
    exact noPrime

theorem realizes_scripted (realizes : Realizes operand reading)
    (progresses : Progresses reading) : Realizes (scripted operand) (Scripted reading) := by
  intro input
  refine ((realizes input).bind _ fun base middle _ =>
    (realizesAt_scripts realizes progresses middle).bind _ fun scripts stop _ =>
      (realizesAt_refuseScriptMark stop).map fun _ => scripts.attach base).congr fun node rest => ?_
  constructor
  · rintro ⟨base, middle, read, scripts, stop, attached, _, ⟨rfl, unmarked⟩, rfl⟩
    obtain ⟨primes, next, ⟨split, noPrime⟩, sub, again, first, after⟩ := attached
    have settled := settled_iff.mpr ⟨noPrime_of_afterSub noPrime first after, unmarked⟩
    exact .intro read ((scriptsOf_iff settled).mp
      ⟨primes, next, ⟨split, noPrime⟩, sub, again, first, after⟩) settled
  · rintro ⟨read, attached, settled⟩
    exact ⟨_, _, read, _, rest, (scriptsOf_iff settled).mpr attached, (),
      ⟨rfl, (settled_iff.mp settled).2⟩, rfl⟩

end Scripts

section Lists

open MathMarkup.Tex.Parser

variable {operand : Reader Node} {reading : Reading}

/-- Items are read until the tokens are used up, as long as each of them takes one. -/
theorem realizesAt_untilEnd {α : Type} {item : Reader α} {reading : ReadingOf α}
    (realizes : Realizes item reading)
    (shorter : ∀ {input value rest}, reading input value rest → rest.length < input.length)
    (input : List Token) :
    RealizesAt input (Reader.untilEnd item) fun values rest =>
      rest = [] ∧ Items reading input values := by
  -- The induction follows the tokens that are left: each item takes at least one.
  induction count : input.length using Nat.strongRecOn generalizing input with
  | ind count inductionHypothesis =>
    subst count
    intro before values rest
    rw [Reader.untilEnd]
    cases input with
    | nil =>
      constructor
      · rintro ⟨passed, read⟩
        cases read
        exact ⟨rfl, .nil⟩
      · rintro ⟨rfl, ⟨⟩⟩
        exact ⟨before, rfl⟩
    | cons token tail =>
      constructor
      · rintro ⟨passed, read⟩
        simp only at read
        split at read
        · cases read
        · rename_i value next itemRead
          have first := (realizes _ before value next.after).mp ⟨next.before, itemRead⟩
          rw [if_pos (shorter first)] at read
          split at read
          · cases read
          · rename_i others last othersRead
            cases read
            obtain ⟨rfl, followed⟩ := (inductionHypothesis _ (shorter first) next.after rfl
              next.before others rest).mp ⟨passed, othersRead⟩
            exact ⟨rfl, .cons first followed⟩
      · rintro ⟨rfl, items⟩
        cases items with
        | cons first others =>
          rename_i middle value values
          obtain ⟨between, itemRead⟩ := (realizes _ before value middle).mpr first
          obtain ⟨passed, othersRead⟩ := (inductionHypothesis _ (shorter first) middle rfl
            between values []).mpr ⟨rfl, others⟩
          refine ⟨passed, ?_⟩
          simp only [itemRead, if_pos (shorter first), othersRead]

/-- A part of a sequence is an operand with its scripts, but no cell mark. -/
theorem realizes_part (realizes : Realizes operand reading) (progresses : Progresses reading) :
    Realizes (part operand) fun input node rest =>
      Scripted reading input node rest ∧ Grid.isCellMark node = false := by
  intro input
  cases input with
  | nil =>
    refine RealizesAt.peek_bind_nil.congr fun node rest => ⟨False.elim, ?_⟩
    rintro ⟨read, -⟩
    have shorter := read.length_lt progresses
    simp at shorter
  | cons token tail =>
    apply RealizesAt.peek_bind_cons
    refine ((realizes_scripted realizes progresses (token :: tail)).bind
      (fun node stop result rest => (result = node ∧ rest = stop) ∧ Grid.isCellMark node = false)
      ?_).congr ?_
    · intro node stop _
      cases isMark : Grid.isCellMark node with
      | true =>
        simp only [if_true]
        exact RealizesAt.throw_bind.congr (by simp)
      | false =>
        simp only [Bool.false_eq_true, if_false]
        exact (RealizesAt.pure node).congr (by simp)
    · intro node rest
      constructor
      · rintro ⟨node, stop, read, ⟨rfl, rfl⟩, noMark⟩
        exact ⟨read, noMark⟩
      · rintro ⟨read, noMark⟩
        exact ⟨node, rest, read, ⟨rfl, rfl⟩, noMark⟩

/-- Items with a property each are items that all have it. -/
theorem items_and_iff {α : Type} {item : ReadingOf α} {holds : α → Prop} {input : List Token}
    {values : List α} :
    Items (fun input value rest => item input value rest ∧ holds value) input values ↔
      Items item input values ∧ ∀ value ∈ values, holds value := by
  constructor
  · intro items
    induction items with
    | nil => exact ⟨.nil, by simp⟩
    | cons first others inductionHypothesis =>
      refine ⟨.cons first.1 inductionHypothesis.1, ?_⟩
      intro value member
      rcases List.mem_cons.mp member with rfl | member
      · exact first.2
      · exact inductionHypothesis.2 value member
  · rintro ⟨items, all⟩
    induction items with
    | nil => exact .nil
    | cons first others inductionHypothesis =>
      exact .cons ⟨first, all _ (by simp)⟩ (inductionHypothesis fun value member =>
        all value (List.mem_cons_of_mem _ member))

theorem realizesAt_sequence (options : ParseOptions) (realizes : Realizes operand reading)
    (progresses : Progresses reading) (input : List Token) :
    RealizesAt input (sequence options operand) fun node rest =>
      rest = [] ∧ Sequence reading options input node := by
  refine ((realizesAt_untilEnd (realizes_part realizes progresses)
    (fun read => read.1.length_lt progresses) input).map fun parts =>
      Node.group (parts.filter (keeps options))).congr fun node rest => ?_
  constructor
  · rintro ⟨parts, ⟨rfl, items⟩, rfl⟩
    obtain ⟨read, noMark⟩ := items_and_iff.mp items
    exact ⟨rfl, .intro read noMark⟩
  · rintro ⟨rfl, ⟨read, noMark⟩⟩
    exact ⟨_, ⟨rfl, items_and_iff.mpr ⟨read, noMark⟩⟩, rfl⟩

theorem realizesAt_grid (realizes : Realizes operand reading) (progresses : Progresses reading)
    (input : List Token) :
    RealizesAt input (grid operand) fun rows rest => rest = [] ∧ Rows reading input rows := by
  refine ((realizesAt_untilEnd (realizes_scripted realizes progresses)
    (fun read => read.length_lt progresses) input).map Grid.ofParts).congr fun rows rest => ?_
  constructor
  · rintro ⟨parts, ⟨rfl, items⟩, rfl⟩
    exact ⟨rfl, .intro items⟩
  · rintro ⟨rfl, ⟨read⟩⟩
    exact ⟨_, ⟨rfl, read⟩, rfl⟩

end Lists

section Commands

open MathMarkup.Tex.Parser

variable {operand : Reader Node} {reading : Reading}

/-- Layout is passed over up to the first token that is none. -/
theorem eq_layout_append (input : List Token) :
    ∃ layout, input = layout ++ input.dropWhile Token.isLayout ∧
      (∀ blank ∈ layout, blank.isLayout = true) ∧ layout.length = Token.layoutLength input := by
  refine ⟨input.takeWhile Token.isLayout, List.takeWhile_append_dropWhile.symm, ?_, rfl⟩
  intro blank member
  exact List.all_eq_true.mp List.all_takeWhile blank member

theorem eq_withoutTrailingLayout_append (tokens : List Token) :
    ∃ trailing, tokens = Parser.withoutTrailingLayout tokens ++ trailing ∧
      ∀ blank ∈ trailing, blank.isLayout = true := by
  obtain ⟨layout, split, passed, -⟩ := eq_layout_append tokens.reverse
  refine ⟨layout.reverse, ?_, fun blank member => passed blank (List.mem_reverse.mp member)⟩
  have reversed := congrArg List.reverse split
  rwa [List.reverse_reverse, List.reverse_append] at reversed

/-- The token at which the layout ends is none. -/
theorem solid_of_dropWhile {input tail : List Token} {token : Token}
    (ends : input.dropWhile Token.isLayout = token :: tail) : token.isLayout = false := by
  have nonempty : input.dropWhile Token.isLayout ≠ [] := by simp [ends]
  have stops := List.head_dropWhile_not Token.isLayout nonempty
  simpa [ends] using stops

/-- Layout before a token that is none is passed over as a whole. -/
theorem dropWhile_layout_append {layout tail : List Token} {token : Token}
    (passed : ∀ blank ∈ layout, blank.isLayout = true) (solid : token.isLayout = false) :
    (layout ++ token :: tail).dropWhile Token.isLayout = token :: tail := by
  rw [List.dropWhile_append_of_pos passed]
  simp [solid]

theorem layoutLength_append {layout tail : List Token} {token : Token}
    (passed : ∀ blank ∈ layout, blank.isLayout = true) (solid : token.isLayout = false) :
    Token.layoutLength (layout ++ token :: tail) = layout.length := by
  unfold Token.layoutLength
  rw [List.takeWhile_append_of_pos passed]
  simp [solid]

theorem drop_layoutLength (input : List Token) :
    input.drop (Token.layoutLength input) = input.dropWhile Token.isLayout := by
  induction input with
  | nil => rfl
  | cons token tail inductionHypothesis =>
    unfold Token.layoutLength at inductionHypothesis ⊢
    cases blank : token.isLayout with
    | true => simpa [blank] using inductionHypothesis
    | false => simp [blank]

theorem skipLayout_bind {β : Type} {input : List Token} {next : Unit → Reader β}
    {taken : β → List Token → Prop}
    (realizes : RealizesAt (input.dropWhile Token.isLayout) (next ()) taken) :
    RealizesAt input (Reader.skipLayout >>= next) taken := by
  rw [← drop_layoutLength] at realizes
  exact RealizesAt.skip_bind realizes

/-- A number after the place is split in the tokens that are left. -/
theorem splitNumber_eq (before input : List Token) :
    Cursor.splitNumber ⟨before, input⟩ = ⟨before, splitFirst input⟩ := by
  cases input with
  | nil => rfl
  | cons token tail =>
    simp only [Cursor.splitNumber, splitFirst]
    cases Cursor.splitNumber? token with
    | none => rfl
    | some parts => rfl

theorem splitNumber_bind {β : Type} {input : List Token} {next : PUnit → Reader β}
    {taken : β → List Token → Prop} (realizes : RealizesAt (splitFirst input) (next ⟨⟩) taken) :
    RealizesAt input (modify Cursor.splitNumber >>= next) taken := by
  intro before
  change ∀ value rest, (∃ passed, next ⟨⟩ (Cursor.splitNumber ⟨before, input⟩) = _) ↔ _
  rw [splitNumber_eq]
  exact realizes before

theorem realizes_argument (realizes : Realizes operand reading) (command : String) :
    Realizes (argument operand command) (Argument reading) := by
  intro input
  apply RealizesAt.previous_bind
  intro previous
  apply skipLayout_bind
  apply RealizesAt.remaining_bind
  obtain ⟨layout, split, passed, -⟩ := eq_layout_append input
  cases ends : input.dropWhile Token.isLayout with
  | nil =>
    refine (RealizesAt.throw _).congr fun node rest => ⟨False.elim, ?_⟩
    rintro ⟨passed, solid, inside, read⟩
    rw [dropWhile_layout_append passed solid] at ends
    cases ends
  | cons token tail =>
    have solid := solid_of_dropWhile ends
    rw [ends] at split
    -- The layout and the token after it are determined by the tokens.
    have unique {node : Node} {rest : List Token} (read : Argument reading input node rest) :
        token ≠ .closeBrace ∧ reading (splitFirst (token :: tail)) node rest := by
      obtain ⟨passed, solid, inside, read⟩ := read
      rw [dropWhile_layout_append passed solid] at ends
      cases ends
      exact ⟨inside, read⟩
    by_cases closes : token = .closeBrace
    · simp only [closes, if_true]
      exact RealizesAt.throw_bind.congr fun node rest =>
        ⟨False.elim, fun read => (unique read).1 closes⟩
    · simp only [closes, if_false]
      apply splitNumber_bind
      refine (realizes _).congr fun node rest => ⟨fun read => ?_, fun read => (unique read).2⟩
      rw [split]
      exact .intro passed solid closes read

/-- Braced text is a brace, a text and a brace. -/
theorem bracedText?_eq_some_iff {tokens : List Token} {content : String} :
    bracedText? tokens = some content ↔
      ∃ rest, tokens = .openBrace :: ⟨.text, content⟩ :: .closeBrace :: rest := by
  constructor
  · intro found
    unfold bracedText? at found
    split at found
    · rename_i opener text closer rest
      split at found
      · rename_i shape
        obtain ⟨rfl, isText, rfl⟩ := shape
        obtain ⟨kind, value⟩ := text
        cases isText
        cases found
        exact ⟨rest, rfl⟩
      · cases found
    · cases found
  · rintro ⟨rest, rfl⟩
    rfl

theorem realizesAt_textArgument (command : String) (input : List Token) :
    RealizesAt input (Parser.textArgument command) fun content rest =>
      input = .openBrace :: ⟨.text, content⟩ :: .closeBrace :: rest := by
  apply RealizesAt.remaining_bind
  cases found : bracedText? input with
  | some content =>
    obtain ⟨rest, rfl⟩ := bracedText?_eq_some_iff.mp found
    apply RealizesAt.skip_bind
    refine (RealizesAt.pure content).congr fun other left => ⟨?_, ?_⟩
    · rintro ⟨rfl, rfl⟩
      rfl
    · rintro ⟨⟩
      exact ⟨rfl, rfl⟩
  | none =>
    apply RealizesAt.previous_bind
    intro previous
    refine (RealizesAt.throw _).congr fun content rest => ⟨False.elim, ?_⟩
    rintro rfl
    cases found

/-- The partner of an opener stands behind a balanced list of tokens. -/
theorem closing?_eq_some_iff {opener closer : Token} (distinct : closer ≠ opener)
    {tokens : List Token} {offset : Nat} :
    closing? opener closer tokens = some offset ↔
      ∃ body rest, tokens = body ++ closer :: rest ∧ body.length = offset ∧
        Balanced opener closer body := by
  unfold closing?
  rw [Nesting.closingOffset?_eq_some_iff]
  constructor
  · rintro ⟨body, found, rest, rfl, rfl, balanced, -, isCloser⟩
    obtain rfl := eq_of_beq isCloser
    exact ⟨body, rest, rfl, rfl, balanced⟩
  · rintro ⟨body, rest, rfl, rfl, balanced⟩
    exact ⟨body, closer, rest, rfl, rfl, balanced, by simpa using distinct, by simp⟩

/-- Tokens can be split in only one way behind a balanced part. -/
theorem Balanced.unique {opener closer : Token} (distinct : closer ≠ opener)
    {body other rest otherRest : List Token}
    (same : body ++ closer :: rest = other ++ closer :: otherRest)
    (balanced : Balanced opener closer body) (otherBalanced : Balanced opener closer other) :
    body = other ∧ rest = otherRest := by
  have here := (closing?_eq_some_iff distinct).mpr ⟨body, rest, rfl, rfl, balanced⟩
  have there := (closing?_eq_some_iff distinct).mpr ⟨other, otherRest, same, rfl, otherBalanced⟩
  have lengths : body.length = other.length := Option.some.inj (here.symm.trans there)
  obtain ⟨rfl, tails⟩ := List.append_inj same lengths
  exact ⟨rfl, (List.cons.inj tails).2⟩

/-- What follows a token, found by its place. -/
theorem drop_past (before after : List Token) (token : Token) :
    (before ++ token :: after).drop (before.length + 1) = after := by
  rw [List.append_cons, List.drop_left' (by simp)]

/-- What stands between two tokens, found by its place. -/
theorem take_enclosed (before body after : List Token) (opener closer : Token) :
    ((before ++ opener :: (body ++ closer :: after)).take (before.length + 1 + body.length)).drop
      (before.length + 1) = body := by
  rw [List.append_cons, ← List.append_assoc, List.take_left' (by simp; omega),
    List.drop_left' (by simp)]

/-- What follows the second of two tokens, found by its place. -/
theorem drop_enclosed (before body after : List Token) (opener closer : Token) :
    (before ++ opener :: (body ++ closer :: after)).drop (before.length + 1 + body.length + 1) =
      after := by
  have whole : before ++ opener :: (body ++ closer :: after) =
      (before ++ opener :: body ++ [closer]) ++ after := by simp
  rw [whole, List.drop_left' (by simp; omega)]

theorem realizes_rootIndex (options : ParseOptions) (realizes : Realizes operand reading)
    (progresses : Progresses reading) :
    Realizes (rootIndex? options operand) (IndexAt reading options) := by
  intro input
  apply RealizesAt.remaining_bind
  obtain ⟨layout, split, passed, layoutLength⟩ := eq_layout_append input
  have absentCase (absent : (input.dropWhile Token.isLayout).head? ≠ some .openBracket) :
      RealizesAt input (Pure.pure none) (IndexAt reading options input) := by
    refine (RealizesAt.pure none).congr fun value rest => ⟨?_, ?_⟩
    · rintro ⟨rfl, rfl⟩
      exact .none absent
    · rintro (⟨passed, balanced, inside⟩ | _)
      · simp only [List.append_assoc, List.cons_append] at absent
        rw [dropWhile_layout_append passed rfl] at absent
        exact absurd rfl absent
      · exact ⟨rfl, rfl⟩
  cases ends : input.dropWhile Token.isLayout with
  | nil => exact absentCase (by simp [ends])
  | cons opener tail =>
    by_cases isOpener : opener = .openBracket
    · subst isOpener
      simp only [if_true]
      rw [ends] at split
      have unique {value : Option Node} {rest : List Token}
          (read : IndexAt reading options input value rest) :
          ∃ body index, tail = body ++ .closeBracket :: rest ∧ value = some index ∧
            Balanced .openBracket .closeBracket body ∧ Sequence reading options body index := by
        cases read with
        | some passed balanced inside =>
          simp only [List.append_assoc, List.cons_append] at ends
          rw [dropWhile_layout_append passed rfl] at ends
          cases ends
          exact ⟨_, _, rfl, rfl, balanced, inside⟩
        | none absent => simp [ends] at absent
      unfold closingBracket
      cases found : closing? .openBracket .closeBracket tail with
      | none =>
        refine RealizesAt.check_bind_error.congr fun value rest => ⟨False.elim, fun read => ?_⟩
        obtain ⟨body, index, rfl, -, balanced, -⟩ := unique read
        rw [(closing?_eq_some_iff (by decide)).mpr ⟨body, rest, rfl, rfl, balanced⟩] at found
        cases found
      | some offset =>
        obtain ⟨body, after, rfl, rfl, balanced⟩ := (closing?_eq_some_iff (by decide)).mp found
        apply RealizesAt.check_bind_ok
        refine ((realizesAt_sequence options realizes progresses _).within.bind _
          fun index stop taken => (RealizesAt.skip_bind (RealizesAt.pure (some index))).congr
            (fun _ _ => Iff.rfl)).congr fun value rest => ?_
        have dropped : input.drop (Token.layoutLength input + body.length + 2) = after := by
          rw [← layoutLength, split,
            show layout.length + body.length + 2 = layout.length + 1 + body.length + 1 by omega]
          exact drop_enclosed ..
        constructor
        · rintro ⟨index, stop, ⟨rfl, left, -, inside⟩, rfl, rfl⟩
          rw [List.take_left'] at inside
          · rw [dropped, split]
            simpa using IndexAt.some passed balanced inside
          · rfl
        · intro read
          obtain ⟨other, index, same, rfl, otherBalanced, inside⟩ := unique read
          obtain ⟨rfl, rfl⟩ := Balanced.unique (by decide) same balanced otherBalanced
          refine ⟨index, input, ⟨rfl, [], rfl, ?_⟩, rfl, dropped.symm⟩
          rw [List.take_left' rfl]
          exact inside
    · simp only [isOpener, if_false]
      exact absentCase (by simp [ends, isOpener])

end Commands

section Enclosures

open MathMarkup.Tex.Parser

variable {operand : Reader Node} {reading : Reading} (options : ParseOptions)

theorem realizesAt_bracedGroup (realizes : Realizes operand reading)
    (progresses : Progresses reading) (tokens : List Token) :
    RealizesAt (.openBrace :: tokens) (bracedGroup options operand) fun node rest =>
      ∃ body, tokens = body ++ .closeBrace :: rest ∧ Balanced .openBrace .closeBrace body ∧
        Sequence reading options body node := by
  apply RealizesAt.take_bind_cons
  apply RealizesAt.remaining_bind
  unfold closingBrace
  cases found : closing? .openBrace .closeBrace tokens with
  | none =>
    refine RealizesAt.check_bind_error.congr fun node rest => ⟨False.elim, ?_⟩
    rintro ⟨body, rfl, balanced, -⟩
    rw [(closing?_eq_some_iff (by decide)).mpr ⟨body, rest, rfl, rfl, balanced⟩] at found
    cases found
  | some offset =>
    obtain ⟨body, after, rfl, rfl, balanced⟩ := (closing?_eq_some_iff (by decide)).mp found
    apply RealizesAt.check_bind_ok
    rw [List.take_left' rfl]
    refine ((realizesAt_sequence options realizes progresses body).within.bind _
      fun node stop taken => RealizesAt.skip_bind (RealizesAt.pure node)).congr
        fun node rest => ?_
    constructor
    · rintro ⟨other, stop, ⟨rfl, left, -, inside⟩, rfl, rfl⟩
      rw [drop_past]
      exact ⟨body, rfl, balanced, inside⟩
    · rintro ⟨other, same, otherBalanced, inside⟩
      obtain ⟨rfl, rfl⟩ := Balanced.unique (by decide) same balanced otherBalanced
      exact ⟨node, _, ⟨rfl, [], rfl, inside⟩, rfl, (drop_past ..).symm⟩

/-- A delimiter is found behind the layout before it. -/
theorem delimiterAfter_eq_ok_iff {side : Side} {command : Token} {tokens : List Token}
    {node : Node} {length : Nat} :
    delimiterAfter side command tokens = .ok (node, length) ↔
      ∃ layout token rest, tokens = layout ++ token :: rest ∧
        (∀ blank ∈ layout, blank.isLayout = true) ∧ token.isDelimiter = true ∧
        node = delimiter token ∧ length = layout.length + 1 := by
  obtain ⟨layout, split, passed, layoutLength⟩ := eq_layout_append tokens
  have solid {token : Token} (delimits : token.isDelimiter = true) : token.isLayout = false := by
    rcases kind_of_isDelimiter delimits with isElement | isCommand
    · simp [Token.isLayout, isElement]
    · simp [Token.isLayout, isCommand]
  unfold delimiterAfter
  cases ends : tokens.dropWhile Token.isLayout with
  | nil =>
    refine ⟨by simp, ?_⟩
    rintro ⟨other, token, rest, rfl, otherPassed, delimits, -⟩
    rw [dropWhile_layout_append otherPassed (solid delimits)] at ends
    cases ends
  | cons token rest =>
    rw [ends] at split
    constructor
    · intro found
      simp only at found
      split at found
      · rename_i delimits
        cases found
        exact ⟨layout, token, rest, split, passed, delimits, rfl, by rw [layoutLength]⟩
      · cases found
    · rintro ⟨other, found, others, rfl, otherPassed, delimits, rfl, rfl⟩
      rw [dropWhile_layout_append otherPassed (solid delimits)] at ends
      cases ends
      simp only [delimits, if_true]
      rw [layoutLength_append otherPassed (solid delimits)]

/-- Layout and a delimiter are no half of a pair of delimiter commands. -/
theorem neutral_layout_delimiter {layout : List Token} {token : Token}
    (passed : ∀ blank ∈ layout, blank.isLayout = true) (delimits : token.isDelimiter = true) :
    ∀ item ∈ layout ++ [token], (item == Token.left) = false ∧ (item == Token.right) = false := by
  intro item member
  have apart {command : Token} (noLayout : command.isLayout = false)
      (noDelimiter : command.isDelimiter = false) : (item == command) = false := by
    rw [beq_eq_false_iff_ne]
    rintro rfl
    rcases List.mem_append.mp member with blank | last
    · rw [passed item blank] at noLayout
      cases noLayout
    · rw [List.mem_singleton.mp last, delimits] at noDelimiter
      cases noDelimiter
  exact ⟨apart rfl (by decide), apart rfl (by decide)⟩

/-- The command that closes a formula is found behind its body. -/
theorem closing?_layout_delimiter {layout tail : List Token} {token : Token}
    (passed : ∀ blank ∈ layout, blank.isLayout = true) (delimits : token.isDelimiter = true) :
    closing? .left .right (layout ++ token :: tail) =
      (closing? .left .right tail).map (layout.length + 1 + ·) := by
  have neutral := neutral_layout_delimiter passed delimits
  rw [List.append_cons]
  refine (Nesting.closingOffset?_neutral_append neutral).trans ?_
  simp [closing?, Nat.add_comm]

theorem realizesAt_leftRight (realizes : Realizes operand reading)
    (progresses : Progresses reading) (tokens : List Token) :
    RealizesAt (.left :: tokens) (leftRight options operand)
      (Delimited reading options tokens) := by
  apply RealizesAt.take_bind_cons
  apply RealizesAt.remaining_bind
  refine (RealizesAt.check_bind (fun start node rest => ∃ offset,
    closing? .left .right tokens = some offset ∧ ∃ stop,
      delimiterAfter .right .right (tokens.drop (offset + 1)) = .ok stop ∧ ∃ inner,
        Sequence reading options ((tokens.take offset).drop start.2) inner ∧
          node = .leftright "" start.1 inner stop.1 ∧
          rest = tokens.drop (offset + 1 + stop.2)) ?_).congr fun node rest => ?_
  · rintro ⟨opening, bodyStart⟩ _
    cases found : closing? .left .right tokens with
    | none => exact (RealizesAt.throw _).congr (by simp)
    | some offset =>
      refine (RealizesAt.check_bind (fun stop node rest => ∃ inner,
        Sequence reading options ((tokens.take offset).drop bodyStart) inner ∧
          node = .leftright "" opening inner stop.1 ∧
          rest = tokens.drop (offset + 1 + stop.2)) ?_).congr (by simp)
      rintro ⟨closing, length⟩ _
      refine ((realizesAt_sequence options realizes progresses _).within.bind _
        fun inner stop taken => RealizesAt.skip_bind
          (RealizesAt.pure (Node.leftright "" opening inner closing))).congr fun node rest => ?_
      constructor
      · rintro ⟨inner, stop, ⟨rfl, left, -, inside⟩, rfl, rfl⟩
        exact ⟨inner, inside, rfl, rfl⟩
      · rintro ⟨inner, inside, rfl, rfl⟩
        exact ⟨inner, tokens, ⟨rfl, [], rfl, inside⟩, rfl, rfl⟩
  · constructor
    · rintro ⟨⟨opening, bodyStart⟩, starts, offset, found, ⟨closing, length⟩, ends, inner, inside,
        rfl, rfl⟩
      obtain ⟨layout, token, after, rfl, passed, opens, rfl, rfl⟩ :=
        delimiterAfter_eq_ok_iff.mp starts
      rw [closing?_layout_delimiter passed opens] at found
      obtain ⟨_, bodyFound, rfl⟩ := Option.map_eq_some_iff.mp found
      obtain ⟨body, tail, rfl, rfl, balanced⟩ := (closing?_eq_some_iff (by decide)).mp bodyFound
      rw [drop_enclosed] at ends
      obtain ⟨moreLayout, other, rest, rfl, morePassed, closes, rfl, rfl⟩ :=
        delimiterAfter_eq_ok_iff.mp ends
      rw [← List.drop_drop, drop_enclosed, drop_past]
      rw [take_enclosed] at inside
      exact .intro passed opens balanced inside morePassed closes
    · rintro ⟨passed, opens, balanced, inside, morePassed, closes⟩
      rename_i layout body moreLayout opening closing inner
      have bodyFound := (closing?_eq_some_iff (by decide)).mpr
        ⟨body, moreLayout ++ closing :: rest, rfl, rfl, balanced⟩
      refine ⟨(delimiter opening, layout.length + 1), delimiterAfter_eq_ok_iff.mpr
        ⟨layout, opening, _, rfl, passed, opens, rfl, rfl⟩, layout.length + 1 + body.length, ?_,
        (delimiter closing, moreLayout.length + 1), delimiterAfter_eq_ok_iff.mpr
        ⟨moreLayout, closing, rest, drop_enclosed .., morePassed, closes, rfl, rfl⟩,
        inner, ?_, rfl, ?_⟩
      · rw [closing?_layout_delimiter passed opens, bodyFound]
        rfl
      · rw [take_enclosed]
        exact inside
      · rw [← List.drop_drop, drop_enclosed, drop_past]

/-- The end of an environment repeats its name. -/
theorem checkEnd_eq_ok_iff {name : String} {tokens : List Token} :
    checkEnd name tokens = .ok () ↔
      ∃ rest, tokens = .openBrace :: ⟨.text, name⟩ :: .closeBrace :: rest := by
  unfold checkEnd
  cases found : bracedText? tokens with
  | none =>
    refine ⟨by simp, ?_⟩
    intro ends
    rw [bracedText?_eq_some_iff.mpr ends] at found
    cases found
  | some closing =>
    obtain ⟨rest, rfl⟩ := bracedText?_eq_some_iff.mp found
    constructor
    · intro same
      simp only at same
      split at same
      · rename_i sameName
        exact ⟨rest, by rw [sameName]⟩
      · cases same
    · rintro ⟨other, same⟩
      cases same
      simp

theorem realizesAt_environment (realizes : Realizes operand reading)
    (progresses : Progresses reading) (tokens : List Token) :
    RealizesAt (.beginEnvironment :: tokens) (environment operand)
      (Environment reading tokens) := by
  apply RealizesAt.take_bind_cons
  refine ((realizesAt_textArgument "\\begin" tokens).bind (fun name tokens node rest =>
    ∃ columns, columnSpecificationLength name tokens = .ok columns ∧ ∃ offset,
      closing? .beginEnvironment .endEnvironment tokens = some offset ∧ ∃ done,
        checkEnd name (tokens.drop (offset + 1)) = .ok done ∧ ∃ rows,
          Rows reading (withoutTrailingLayout ((tokens.take offset).drop
            (columns + Token.layoutLength (tokens.drop columns)))) rows ∧
          node = .beginend name rows ∧ rest = tokens.drop (offset + 4)) ?_).congr
      fun node rest => ?_
  · intro name tokens _
    apply RealizesAt.remaining_bind
    apply RealizesAt.check_bind
    intro columns _
    cases found : closing? .beginEnvironment .endEnvironment tokens with
    | none => exact (RealizesAt.throw _).congr (by simp)
    | some offset =>
      refine (RealizesAt.check_bind (fun _ node rest => ∃ rows,
        Rows reading (withoutTrailingLayout ((tokens.take offset).drop
          (columns + Token.layoutLength (tokens.drop columns)))) rows ∧
        node = .beginend name rows ∧ rest = tokens.drop (offset + 4)) ?_).congr (by simp)
      intro done _
      refine ((realizesAt_grid realizes progresses _).within.bind _
        fun rows stop taken => RealizesAt.skip_bind
          (RealizesAt.pure (Node.beginend name rows))).congr fun node rest => ?_
      constructor
      · rintro ⟨rows, stop, ⟨rfl, left, -, grid⟩, rfl, rfl⟩
        exact ⟨rows, grid, rfl, rfl⟩
      · rintro ⟨rows, grid, rfl, rfl⟩
        exact ⟨rows, tokens, ⟨rfl, [], rfl, grid⟩, rfl, rfl⟩
  · constructor
    · rintro ⟨name, tokens, rfl, columns, specification, offset, found, done, ends, rows, grid,
        rfl, rfl⟩
      obtain ⟨inside, tail, rfl, rfl, balanced⟩ := (closing?_eq_some_iff (by decide)).mp found
      rw [drop_past] at ends
      obtain ⟨rest, rfl⟩ := checkEnd_eq_ok_iff.mp ends
      rw [List.take_left' rfl] at grid
      rw [show inside.length + 4 = inside.length + 1 + 3 by omega, ← List.drop_drop, drop_past]
      exact .intro rfl balanced specification grid
    · rintro ⟨rfl, balanced, specification, grid⟩
      rename_i name inside columns rows
      refine ⟨name, _, rfl, columns, specification, inside.length,
        (closing?_eq_some_iff (by decide)).mpr ⟨inside, _, rfl, rfl, balanced⟩, (), ?_, rows,
        ?_, rfl, ?_⟩
      · rw [drop_past]
        exact checkEnd_eq_ok_iff.mpr ⟨rest, rfl⟩
      · rw [List.take_left' rfl]
        exact grid
      · rw [show inside.length + 4 = inside.length + 1 + 3 by omega, ← List.drop_drop, drop_past]
        rfl

end Enclosures

section Operands

open MathMarkup.Tex.Parser

variable {operand : Reader Node} {reading : Reading} (options : ParseOptions)

theorem realizes_unaryCommand (realizes : Realizes operand reading)
    (progresses : Progresses reading) (command : String) :
    Realizes (unaryCommand options operand command) (UnaryAt reading options command) := by
  intro input
  unfold unaryCommand
  by_cases isText : command = "\\text"
  · rw [if_pos isText]
    refine ((realizesAt_textArgument _ input).map Node.text).congr fun node rest => ⟨?_, ?_⟩
    · rintro ⟨content, rfl, rfl⟩
      exact .text isText content rest
    · rintro (_ | ⟨other⟩ | ⟨other⟩ | ⟨math⟩)
      · exact ⟨_, rfl, rfl⟩
      · simp [isText] at other
      · simp [isText] at other
      · exact absurd isText math.1
  rw [if_neg isText]
  by_cases isOperator : command = "\\operatorname"
  · rw [if_pos isOperator]
    refine ((realizesAt_textArgument _ input).map fun content =>
      Node.unaryFunc command (.text content) none).congr fun node rest => ⟨?_, ?_⟩
    · rintro ⟨content, rfl, rfl⟩
      exact .operator isOperator content rest
    · rintro (⟨other⟩ | _ | ⟨other⟩ | ⟨math⟩)
      · exact absurd other isText
      · exact ⟨_, rfl, rfl⟩
      · simp [isOperator] at other
      · exact absurd isOperator math.2.1
  rw [if_neg isOperator]
  by_cases isRoot : command = "\\sqrt"
  · simp only [isRoot, if_true]
    refine ((realizes_rootIndex options realizes progresses input).bind _ fun index middle _ =>
      (realizes_argument realizes _ middle).map fun arg => Node.unaryFunc _ arg index).congr
        fun node rest => ⟨?_, ?_⟩
    · rintro ⟨index, middle, indexRead, arg, argument, rfl⟩
      exact .root rfl indexRead argument
    · rintro (⟨other⟩ | ⟨other⟩ | ⟨_, indexRead, argument⟩ | ⟨math⟩)
      · simp at other
      · simp at other
      · exact ⟨_, _, indexRead, _, argument, rfl⟩
      · exact absurd rfl math.2.2
  · simp only [isRoot, if_false]
    refine ((realizes_argument realizes _ input).map fun arg =>
      Node.unaryFunc command arg none).congr fun node rest => ⟨?_, ?_⟩
    · rintro ⟨arg, argument, rfl⟩
      exact .other ⟨isText, isOperator, isRoot⟩ argument
    · rintro (⟨other⟩ | ⟨other⟩ | ⟨other⟩ | ⟨_, argument⟩)
      · exact absurd other isText
      · exact absurd other isOperator
      · exact absurd other isRoot
      · exact ⟨_, argument, rfl⟩

theorem realizesAt_command (realizes : Realizes operand reading)
    (progresses : Progresses reading) (value : String) (tokens : List Token) :
    RealizesAt (⟨.command, value⟩ :: tokens) (command options operand)
      (CommandAt reading options value tokens) := by
  apply RealizesAt.take_bind_cons
  change RealizesAt tokens (if pairedNames.contains (commandName value) = true then _ else _) _
  by_cases paired : commandName value ∈ pairedNames
  · rw [if_pos (List.contains_iff_mem.mpr paired)]
    refine RealizesAt.throw_bind.congr fun node rest => ⟨False.elim, ?_⟩
    exact fun read => read.single paired
  · have named : String.ofList (value.toList.drop 1) = commandName value := rfl
    rw [if_neg (by simpa using paired)]
    simp only [named]
    cases arity : Arity.ofName (commandName value) with
    | constant =>
      refine (RealizesAt.pure _).congr fun node rest => ⟨?_, ?_⟩
      · rintro ⟨rfl, rfl⟩
        exact .constant arity paired
      · rintro (_ | ⟨other, _⟩ | ⟨other, _⟩)
        · exact ⟨rfl, rfl⟩
        · simp [arity] at other
        · simp [arity] at other
    | unary =>
      refine (realizes_unaryCommand options realizes progresses value tokens).congr
        fun node rest => ⟨fun read => .unary arity read, ?_⟩
      rintro (⟨other, _⟩ | ⟨_, read⟩ | ⟨other, _⟩)
      · simp [arity] at other
      · exact read
      · simp [arity] at other
    | binary =>
      refine ((realizes_argument realizes value tokens).bind _ fun first middle _ =>
        (realizes_argument realizes value middle).map fun second =>
          Node.binaryFunc value first second).congr fun node rest => ⟨?_, ?_⟩
      · rintro ⟨first, middle, firstArgument, second, secondArgument, rfl⟩
        exact .binary arity firstArgument secondArgument
      · rintro (⟨other, _⟩ | ⟨other, _⟩ | ⟨_, firstArgument, secondArgument⟩)
        · simp [arity] at other
        · simp [arity] at other
        · exact ⟨_, _, firstArgument, _, secondArgument, rfl⟩

theorem realizesAt_leaf {token : Token} {tokens : List Token} (kind : LeafKind) (content : String) :
    RealizesAt (token :: tokens) (leaf kind content) fun node rest =>
      node = .leaf kind content ∧ rest = tokens := by
  apply RealizesAt.skip_bind
  exact RealizesAt.pure (Node.leaf kind content)

/-- The rules for a token that is a leaf of its own. -/
theorem operand_leaf_iff {token : Token} {tokens rest : List Token} {node expected : Node}
    (plain : leafOf? token = some expected) :
    (node = expected ∧ rest = tokens) ↔ Operand options reading (token :: tokens) node rest := by
  constructor
  · rintro ⟨rfl, rfl⟩
    exact .leaf plain
  · intro read
    generalize same : token :: tokens = input at read
    cases read with
    | leaf other =>
      cases same
      rw [plain] at other
      cases other
      exact ⟨rfl, rfl⟩
    | missingBase mark rest =>
      cases same
      cases mark <;> simp [leafOf?, markToken] at plain
    | group => cases same; simp [leafOf?, Token.openBrace] at plain
    | command => cases same; simp [leafOf?] at plain
    | leftRight => cases same; simp [leafOf?, Token.left] at plain
    | environment => cases same; simp [leafOf?, Token.beginEnvironment] at plain

/-- The rules for an opening brace. -/
theorem operand_openBrace_iff {tokens rest : List Token} {node : Node} :
    (∃ body, tokens = body ++ .closeBrace :: rest ∧ Balanced .openBrace .closeBrace body ∧
      Sequence reading options body node) ↔
      Operand options reading (.openBrace :: tokens) node rest := by
  constructor
  · rintro ⟨body, rfl, balanced, inside⟩
    exact .group balanced inside
  · intro read
    generalize same : Token.openBrace :: tokens = input at read
    cases read with
    | leaf plain => cases same; simp [leafOf?, Token.openBrace] at plain
    | missingBase mark rest => cases mark <;> simp [markToken, Token.openBrace] at same
    | group balanced inside =>
      cases same
      exact ⟨_, rfl, balanced, inside⟩
    | command => simp [Token.openBrace] at same
    | leftRight => simp [Token.openBrace, Token.left] at same
    | environment => simp [Token.openBrace, Token.beginEnvironment] at same

/-- The rules for a script mark that has no base before it. -/
theorem operand_mark_iff {mark : Token.ScriptMark} {tokens rest : List Token} {node : Node} :
    (node = .empty ∧ rest = markToken mark :: tokens) ↔
      Operand options reading (markToken mark :: tokens) node rest := by
  constructor
  · rintro ⟨rfl, rfl⟩
    exact .missingBase mark tokens
  · intro read
    generalize same : markToken mark :: tokens = input at read
    cases read with
    | leaf plain => cases same; cases mark <;> simp [leafOf?, markToken] at plain
    | missingBase other rest => exact ⟨rfl, rfl⟩
    | group => cases mark <;> simp [markToken, Token.openBrace] at same
    | command => cases mark <;> simp [markToken] at same
    | leftRight => cases mark <;> simp [markToken, Token.left] at same
    | environment => cases mark <;> simp [markToken, Token.beginEnvironment] at same

/-- No rule starts with a control token that is neither a brace nor a mark nor a leaf. -/
theorem not_operand_control {value : String} {tokens rest : List Token} {node : Node}
    (noBrace : value ≠ "\x7b") (noLeaf : leafOf? ⟨.control, value⟩ = none)
    (noMark : (Token.mk .control value).scriptMark? = none) :
    ¬ Operand options reading (⟨.control, value⟩ :: tokens) node rest := by
  intro read
  generalize same : Token.mk .control value :: tokens = input at read
  cases read with
  | leaf plain => cases same; simp [noLeaf] at plain
  | missingBase mark rest =>
    rw [(List.cons.inj same).1, scriptMark?_markToken] at noMark
    cases noMark
  | group => exact noBrace (congrArg Token.value (List.cons.inj same).1)
  | command => simp at same
  | leftRight => simp [Token.left] at same
  | environment => simp [Token.beginEnvironment] at same

/-- The rules for the command that opens an environment. -/
theorem operand_begin_iff {tokens rest : List Token} {node : Node} :
    Environment reading tokens node rest ↔
      Operand options reading (.beginEnvironment :: tokens) node rest := by
  constructor
  · exact .environment
  · intro read
    generalize same : Token.beginEnvironment :: tokens = input at read
    cases read with
    | leaf plain => cases same; simp [leafOf?, Token.beginEnvironment] at plain
    | missingBase mark rest => cases mark <;> simp [markToken, Token.beginEnvironment] at same
    | group => simp [Token.openBrace, Token.beginEnvironment] at same
    | command read =>
      cases same
      exact absurd (by decide) read.single
    | leftRight => simp [Token.left, Token.beginEnvironment] at same
    | environment read =>
      cases same
      exact read

/-- The rules for the command before an opening delimiter. -/
theorem operand_left_iff {tokens rest : List Token} {node : Node} :
    Delimited reading options tokens node rest ↔
      Operand options reading (.left :: tokens) node rest := by
  constructor
  · exact .leftRight
  · intro read
    generalize same : Token.left :: tokens = input at read
    cases read with
    | leaf plain => cases same; simp [leafOf?, Token.left] at plain
    | missingBase mark rest => cases mark <;> simp [markToken, Token.left] at same
    | group => simp [Token.openBrace, Token.left] at same
    | command read =>
      cases same
      exact absurd (by decide) read.single
    | leftRight read =>
      cases same
      exact read
    | environment => simp [Token.left, Token.beginEnvironment] at same

/-- The rules for any other command. -/
theorem operand_command_iff {value : String} {tokens rest : List Token} {node : Node}
    (noBegin : Token.mk .command value ≠ .beginEnvironment)
    (noLeft : Token.mk .command value ≠ .left) :
    CommandAt reading options value tokens node rest ↔
      Operand options reading (⟨.command, value⟩ :: tokens) node rest := by
  constructor
  · exact .command
  · intro read
    generalize same : Token.mk .command value :: tokens = input at read
    cases read with
    | leaf plain => cases same; simp [leafOf?] at plain
    | missingBase mark rest => cases mark <;> simp [markToken] at same
    | group => simp [Token.openBrace] at same
    | command read =>
      cases same
      exact read
    | leftRight => exact absurd (List.cons.inj same).1 noLeft
    | environment => exact absurd (List.cons.inj same).1 noBegin

theorem realizesAt_control (realizes : Realizes operand reading)
    (progresses : Progresses reading) (value : String) (tokens : List Token) :
    RealizesAt (⟨.control, value⟩ :: tokens) (Parser.control options operand ⟨.control, value⟩)
      (Operand options reading (⟨.control, value⟩ :: tokens)) := by
  unfold Parser.control
  split
  · rename_i isBrace
    change value = "\x7b" at isBrace
    subst isBrace
    exact (realizesAt_bracedGroup options realizes progresses tokens).congr
      fun node rest => operand_openBrace_iff options
  · rename_i isBrace
    change value = "\x7d" at isBrace
    subst isBrace
    exact (RealizesAt.throw _).congr fun node rest =>
      ⟨False.elim, not_operand_control options (by decide) (by decide) (by decide)⟩
  iterate 3
    · rename_i isLeaf
      change value = _ at isLeaf
      subst isLeaf
      exact (realizesAt_leaf .control _).congr fun node rest => operand_leaf_iff options rfl
  · rename_i isMark
    change value = "_" at isMark
    subst isMark
    exact (RealizesAt.pure Node.empty).congr fun node rest =>
      @operand_mark_iff reading options .subscript tokens rest node
  · rename_i isMark
    change value = "^" at isMark
    subst isMark
    exact (RealizesAt.pure Node.empty).congr fun node rest =>
      @operand_mark_iff reading options .superscript tokens rest node
  · rename_i noOpen noClose noRow noThin noCell noSub noSup
    refine (RealizesAt.throw _).congr fun node rest =>
      ⟨False.elim, not_operand_control options noOpen ?_ ?_⟩
    · have noLeaf : ["\\\\", "\\,", "&"].contains value = false := by
        simp only [List.contains_cons, List.contains_nil, Bool.or_false, Bool.or_eq_false_iff,
          beq_eq_false_iff_ne]
        exact ⟨noRow, noThin, noCell⟩
      simp only [leafOf?, noLeaf, Bool.false_eq_true, if_false]
    · simp only [Token.scriptMark?, Token.mk.injEq, true_and]
      rw [if_neg noSub, if_neg noSup]

/-- Reading an operand follows the rules, if reading inside it does. -/
theorem realizes_operandOver (realizes : Realizes operand reading)
    (progresses : Progresses reading) :
    Realizes (operandOver options operand) (Operand options reading) := by
  intro input
  cases input with
  | nil =>
    refine RealizesAt.peek_bind_nil.congr fun node rest => ⟨False.elim, fun read => ?_⟩
    rcases Operand.progresses progresses read with shorter | ⟨mark, tail, impossible, -⟩
    · simp at shorter
    · cases impossible
  | cons token tokens =>
    apply RealizesAt.peek_bind_cons
    obtain ⟨kind, value⟩ := token
    cases kind with
    | command =>
      by_cases begins : Token.mk .command value = .beginEnvironment
      · simp only [begins, if_true]
        exact (realizesAt_environment realizes progresses tokens).congr fun node rest =>
          operand_begin_iff options
      by_cases opens : Token.mk .command value = .left
      · simp only [opens, if_true]
        exact (realizesAt_leftRight options realizes progresses tokens).congr fun node rest =>
          operand_left_iff options
      · simp only [begins, opens, if_false]
        exact (realizesAt_command options realizes progresses value tokens).congr
          fun node rest => operand_command_iff options begins opens
    | control => exact realizesAt_control options realizes progresses value tokens
    | element | unknown | text | comment | whitespace | newline =>
      exact (realizesAt_leaf _ _).congr fun node rest => operand_leaf_iff options rfl

theorem realizes_operandAt (depth : Nat) :
    Realizes (operandAt options depth) (Reads options depth) := by
  induction depth with
  | zero =>
    intro input
    cases input with
    | nil => exact RealizesAt.peek_bind_nil
    | cons token tail => exact RealizesAt.throw _
  | succ depth inductionHypothesis =>
    exact realizes_operandOver options inductionHypothesis (Reads.progresses options depth)

end Operands

/-- A list of tokens has a formula exactly if the grammar gives it one. -/
theorem parseTokens_eq_ok_iff {options : ParseOptions} {tokens : List Token} {node : Node} :
    parseTokens options tokens = .ok node ↔
      Sequence (Reads options options.maxDepth.toNat) options tokens node := by
  have realizes := realizesAt_sequence options (realizes_operandAt options options.maxDepth.toNat)
    (Reads.progresses options _) tokens
  unfold parseTokens Cursor.ofTokens Parser.operand
  constructor
  · intro parsed
    split at parsed
    · rename_i found stopped read
      cases parsed
      exact ((realizes [] node stopped.after).mp ⟨stopped.before, read⟩).2
    · cases parsed
  · intro formula
    obtain ⟨passed, read⟩ := (realizes [] node []).mpr ⟨rfl, formula⟩
    rw [read]

end MathMarkup.Tex.Grammar
