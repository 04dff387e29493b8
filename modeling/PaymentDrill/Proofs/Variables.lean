import PaymentDrill.Program
import PaymentDrill.Proofs.Alongside

/-!
# Variables in place of settings

A variable that is text does what its setting does in front of the line, for the whole program. A
variable that is no text is where the two part: it is passed over as if it were unset, and the
built-in value is used, while the setting takes the same bytes or is complained about.
-/
namespace PaymentDrill

open Text

namespace CommandLine

variable {i i' : Invocation} {e e' : Environment} {line line' : List (List UInt8)}

/-- The variables of the environment, each of which stands in for a setting. -/
inductive Variable where
  | config
  | walletCli
  deriving DecidableEq

namespace Variable

def setting : Variable → Setting
  | config => .config
  | walletCli => .walletCli

/-- The environment with a variable set, or unset. -/
def put (x : Variable) (value : Option (List UInt8)) (e : Environment) : Environment :=
  match x with
  | config => { e with config := value }
  | walletCli => { e with walletCli := value }

/-- The word of its setting with a value attached. -/
def word (x : Variable) (value : List UInt8) : List UInt8 :=
  Switch.attached (.setting x.setting) value

/-- What an invocation in an environment selects, a path or the name of a program, and what is
noted of it. -/
def choice (x : Variable) (e : Environment) (i : Invocation) : List UInt8 × List Notice :=
  match x with
  | config => i.configPath e
  | walletCli => (Utf8.encode (i.walletProgram e).1.toList, (i.walletProgram e).2)

/-- What a line in an environment selects, if it is read. -/
def selection (x : Variable) (e : Environment) (line : List (List UInt8)) :
    Except Halt (List UInt8 × List Notice) :=
  (read line).map (x.choice e)

/-- The built-in value, and the notice that nothing else is set. -/
def builtIn : Variable → List UInt8 × List Notice
  | config => (Utf8.encode defaultConfig.toList, [.pathDefaulted])
  | walletCli => (Utf8.encode defaultWallet.toList, [.walletDefaulted])

/-- A variable that is set selects what its setting selects in front of the line, or is complained
about like it. -/
def Honoured (x : Variable) (value : List UInt8) (e : Environment) (line : List (List UInt8)) :
    Prop :=
  x.selection (x.put (some value) e) line = x.selection e (x.word value :: line)

end Variable

/-- Bytes that are text. -/
def IsText (value : List UInt8) : Prop := ∃ cs, value = Utf8.encode cs

/-- Two invocations, each in its environment, that ask for the same. -/
structure Agrees (i : Invocation) (e : Environment) (i' : Invocation) (e' : Environment) :
    Prop where
  path : i.configPath e = i'.configPath e'
  wallet : i.walletProgram e = i'.walletProgram e'
  order : i.order = i'.order
  stream : i.stream = i'.stream

lemma Agrees.choice_eq (h : Agrees i e i' e') (x : Variable) : x.choice e i = x.choice e' i' := by
  cases x with
  | config => exact h.path
  | walletCli => simp only [Variable.choice, h.wallet]

/-- Two lines, each in its environment, that are halted alike or ask for the same. -/
inductive Interchangeable (e e' : Environment) : Except Halt Invocation → Except Halt Invocation →
    Prop
  | halted (h : Halt) : Interchangeable e e' (.error h) (.error h)
  | asked {i i' : Invocation} (h : Agrees i e i' e') : Interchangeable e e' (.ok i) (.ok i')

lemma Interchangeable.selection_eq (h : Interchangeable e e' (read line) (read line'))
    (x : Variable) : x.selection e line = x.selection e' line' := by
  unfold Variable.selection
  generalize read line = r, read line' = r' at h
  cases h with
  | halted h => rfl
  | asked h => exact congrArg Except.ok (h.choice_eq x)

end CommandLine

namespace Program

open CommandLine

variable {σ : Type} {e e' : Environment} {line line' : List (List UInt8)}

/-- The surroundings with another line and another environment. -/
def Surroundings.under (a : Surroundings σ) (line : List (List UInt8)) (e : Environment) :
    Surroundings σ :=
  { a with words := line, environment := e }

/-- A program reads its line and its environment for what they ask for, and for nothing else. -/
theorem run_interchangeable (h : Interchangeable e e' (read line) (read line'))
    (a : Surroundings σ) (s : σ) : run (a.under line e) s = run (a.under line' e') s := by
  unfold run Surroundings.under
  dsimp only
  generalize read line = r, read line' = r' at h
  cases h with
  | halted h => rfl
  | @asked i i' h =>
    have hsession (config : Config) (t : σ) :
        session { a with words := line, environment := e } i config t =
          session { a with words := line', environment := e' } i' config t := by
      simp only [session, h.wallet, h.order, h.stream]
    simp only [h.path, hsession]

end Program

namespace CommandLine

variable {x : Variable} {i : Invocation} {e : Environment} {value : List UInt8}
  {line : List (List UInt8)}

lemma config_eq_none (h : i.Free (.setting .config)) : i.config = none := by
  simpa [Invocation.Free, Invocation.has] using h

lemma walletCli_eq_none (h : i.Free (.setting .walletCli)) : i.walletCli = none := by
  simpa [Invocation.Free, Invocation.has] using h

lemma variableOr_of_text {cs : List Char} (h : value = Utf8.encode cs) (fallback : String)
    (notice : Notice) :
    variableOr (some value) fallback notice = (String.ofList cs, []) := by
  simp [variableOr, variableText, Utf8.decode?_eq_some_iff.mpr h]

lemma exists_piece (h : IsText value) (hne : value ≠ []) :
    ∃ q, pieceOf x.setting value = .ok q ∧
      ∀ i, i.Free (.setting x.setting) → Agrees i (x.put (some value) e) (q.put i) e := by
  obtain ⟨cs, hcs⟩ := h
  cases x with
  | config =>
    refine ⟨.config value, if_neg hne, fun i hi => ⟨?_, rfl, rfl, rfl⟩⟩
    have hconfig := config_eq_none hi
    simp only [Invocation.configPath, hconfig, Variable.put, Piece.put, variableOr_of_text hcs]
    rw [hcs, String.toList_ofList]
  | walletCli =>
    refine ⟨.walletCli (String.ofList cs), ?_, fun i hi => ⟨rfl, ?_, rfl, rfl⟩⟩
    · rw [Variable.setting, pieceOf, textOf, Utf8.decode?_eq_some_iff.mpr hcs]
      rfl
    · have hwallet := walletCli_eq_none hi
      simp only [Invocation.walletProgram, hwallet, Variable.put, Piece.put,
        variableOr_of_text hcs]

/-- A variable that is text, and its setting in front of the line. -/
theorem interchangeable_of_text (h : IsText value) (hne : value ≠ [])
    (hline : Lacks (.setting x.setting) line) (e : Environment) :
    Interchangeable (x.put (some value) e) e (read line) (read (x.word value :: line)) := by
  obtain ⟨q, hq, hagrees⟩ := exists_piece (e := e) h hne
  have hbeside := beside_read hq hline
  unfold Variable.word
  generalize read line = r, read (Switch.attached (.setting x.setting) value :: line) = r'
    at hbeside
  cases hbeside with
  | halted h => exact .halted h
  | read hfree => exact .asked (hagrees _ hfree)

lemma decode?_of_not_isText (h : ¬IsText value) : Utf8.decode? value = none := by
  cases hdecode : Utf8.decode? value with
  | none => rfl
  | some cs => exact absurd ⟨cs, Utf8.decode?_eq_some_iff.mp hdecode⟩ h

lemma variableText_of_not_isText (h : ¬IsText value) :
    variableText (some value) = variableText none := by
  simp [variableText, decode?_of_not_isText h]

/-- A variable that is no text, and the same variable unset. -/
theorem interchangeable_of_not_isText (h : ¬IsText value) (x : Variable)
    (e : Environment) (line : List (List UInt8)) :
    Interchangeable (x.put (some value) e) (x.put none e) (read line) (read line) := by
  have htext := variableText_of_not_isText h
  cases read line with
  | error halt => exact .halted halt
  | ok i =>
    cases x with
    | config => exact .asked ⟨by simp only [Invocation.configPath, variableOr, Variable.put, htext],
        rfl, rfl, rfl⟩
    | walletCli => exact .asked ⟨rfl,
        by simp only [Invocation.walletProgram, variableOr, Variable.put, htext], rfl, rfl⟩

lemma choice_put_none (hi : i.Free (.setting x.setting)) (e : Environment) :
    x.choice (x.put none e) i = x.builtIn := by
  cases x with
  | config =>
    have hconfig := config_eq_none hi
    simp [Variable.choice, Invocation.configPath, hconfig, Variable.put, variableOr, variableText,
      Variable.builtIn]
  | walletCli =>
    have hwallet := walletCli_eq_none hi
    simp [Variable.choice, Invocation.walletProgram, hwallet, Variable.put, variableOr,
      variableText, Variable.builtIn]

/-- A variable that is no text is as good as unset. -/
lemma selection_of_not_isText (h : ¬IsText value) (hline : Lacks (.setting x.setting) line)
    (hread : read line = .ok i) (e : Environment) :
    x.selection (x.put (some value) e) line = .ok x.builtIn := by
  rw [(interchangeable_of_not_isText h x e line).selection_eq x, Variable.selection, hread]
  exact congrArg Except.ok (choice_put_none (free_of_read hline hread) e)

/-- A path is any bytes, and the name of a program must be text. -/
def Variable.ofBytes (x : Variable) (value : List UInt8) : Except Halt (List UInt8 × List Notice) :=
  match x with
  | config => .ok (value, [])
  | walletCli => complain .notText

lemma selection_word_of_not_isText (h : ¬IsText value) (hne : value ≠ [])
    (hline : Lacks (.setting x.setting) line) (hread : read line = .ok i) (e : Environment) :
    x.selection e (x.word value :: line) = x.ofBytes value := by
  unfold Variable.selection Variable.word
  cases x with
  | config =>
    have hpiece : pieceOf .config value = .ok (.config value) := if_neg hne
    have hbeside := beside_read hpiece hline
    rw [hread] at hbeside
    show (read (Switch.attached (.setting .config) value :: line)).map _ = _
    generalize read (Switch.attached (.setting .config) value :: line) = r at hbeside ⊢
    cases hbeside with
    | read hfree => rfl
  | walletCli =>
    have hpiece : pieceOf .walletCli value = complain .notText := by
      rw [pieceOf, textOf, decode?_of_not_isText h]
      rfl
    have herror := read_attached_error hpiece line
    exact congrArg (Except.map _) herror

lemma honoured_of_text (h : IsText value) (hne : value ≠ [])
    (hline : Lacks (.setting x.setting) line) (e : Environment) : x.Honoured value e line :=
  (interchangeable_of_text h hne hline e).selection_eq x

lemma not_honoured_of_not_isText (h : ¬IsText value) (hne : value ≠ [])
    (hline : Lacks (.setting x.setting) line) (hread : read line = .ok i) (e : Environment) :
    ¬x.Honoured value e line := by
  rw [Variable.Honoured, selection_of_not_isText h hline hread,
    selection_word_of_not_isText h hne hline hread]
  cases x with
  | config => exact fun heq => List.cons_ne_nil _ _ (congrArg Prod.snd (Except.ok.inj heq))
  | walletCli => exact nofun

end CommandLine

namespace Program

open CommandLine

/-- What a variable with a value comes to, on a line without its setting. -/
structure Exact (x : Variable) (value : List UInt8) (line : List (List UInt8)) : Prop where
  /-- It selects what its setting selects, or is complained about like it, only if it is text. -/
  honoured_iff : ∀ e, x.Honoured value e line ↔ IsText value
  /-- Then the whole program does what it does with the setting in front of the line. -/
  honoured : IsText value → ∀ (σ : Type) (a : Surroundings σ) e s,
    run (a.under line (x.put (some value) e)) s = run (a.under (x.word value :: line) e) s
  /-- Otherwise it does what it does with the variable unset, -/
  overlooked : ¬IsText value → ∀ (σ : Type) (a : Surroundings σ) e s,
    run (a.under line (x.put (some value) e)) s = run (a.under line (x.put none e)) s
  /-- and uses the built-in value, which its setting would never do. -/
  builtIn : ¬IsText value → ∀ e, x.selection (x.put (some value) e) line = .ok x.builtIn ∧
    x.selection e (x.word value :: line) = x.ofBytes value

theorem variable_exact (x : Variable) {value : List UInt8} (hne : value ≠ [])
    {line : List (List UInt8)} (hline : Lacks (.setting x.setting) line) {i : Invocation}
    (hread : read line = .ok i) : Exact x value line where
  honoured_iff e := by
    constructor
    · intro hhonoured
      by_contra h
      exact not_honoured_of_not_isText h hne hline hread e hhonoured
    · exact fun h => honoured_of_text h hne hline e
  honoured h _ a e s := run_interchangeable (interchangeable_of_text h hne hline e) a s
  overlooked h _ a e s := run_interchangeable (interchangeable_of_not_isText h x e line) a s
  builtIn h e := ⟨selection_of_not_isText h hline hread e,
    selection_word_of_not_isText h hne hline hread e⟩

/-- A path that is text, and a name of a program that breaks off within a character. -/
theorem spare_exact :
    Exact .config (Utf8.encode "spare.conf".toList) (wordsOf ["3", "--seed", "7"]) ∧
      Exact .walletCli [0x74, 0xC3] (wordsOf ["--config=--wallet-cli"]) := by
  refine ⟨?_, ?_⟩
  · exact variable_exact .config (i := { Invocation.default with count := 3, seed := some 7 })
      (by decide) (by decide) (by decide +kernel)
  · exact variable_exact .walletCli
      (i := { Invocation.default with config := some (Utf8.encode "--wallet-cli".toList) })
      (by decide) (by decide) (by decide +kernel)

/-- A path of one byte that is no text: it is taken from the line, and overlooked as a variable. -/
theorem unheard_path :
    Variable.config.selection ⟨some [0xFF], none⟩ [] =
        .ok (Utf8.encode "autotx.conf".toList, [.pathDefaulted]) ∧
      Variable.config.selection ⟨none, none⟩ [Variable.config.word [0xFF]] = .ok ([0xFF], []) ∧
      ¬Variable.config.Honoured [0xFF] ⟨none, none⟩ [] := by
  have hvariable : Variable.config.selection ⟨some [0xFF], none⟩ [] =
      .ok (Utf8.encode "autotx.conf".toList, [.pathDefaulted]) := by decide +kernel
  have hsetting : Variable.config.selection ⟨none, none⟩ [Variable.config.word [0xFF]] =
      .ok ([0xFF], []) := by decide +kernel
  refine ⟨hvariable, hsetting, fun hhonoured => ?_⟩
  have heq := hvariable.symm.trans (hhonoured.trans hsetting)
  exact absurd (congrArg Prod.snd (Except.ok.inj heq)) (by decide)

end Program

end PaymentDrill
