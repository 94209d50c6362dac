import ClassOutline.Proofs.BlockOutput
import Mathlib.Data.List.TakeWhile

/-!
Braces in the output balance.

The renderer splices texts that it does not look into, so this can hold only if the texts
themselves balance. Then it does, and the reasons are few. A block decides about braces in two
places, when it opens and when it closes, and the two decisions agree for every kind and every
number of children (`Block.moves_entry`, `Block.moves_exit`). What stands between the two is
balanced by induction.

Labels are the one text that is not spliced whole. They are cut at commas, trimmed, and put on
lines of their own, so that a brace may open in one label and close in another with other
text in between. To follow this, braces are counted on the way: `braceDepth` gives the number of
braces that are open after a text, starting from any number. A text that balances leaves every
number as it was (`braceBalanced_iff`), so it can be put anywhere inside another.
-/

set_option autoImplicit false

namespace ClassOutline

/-! ## Balance -/

/-- As many braces open as close, and at no place have more closed than opened before it. -/
structure BraceBalanced (s : String) : Prop where
  even : s.toList.count '\x7b' = s.toList.count '\x7d'
  ordered : ∀ front, front <+: s.toList → front.count '\x7d' ≤ front.count '\x7b'

/-- The number of open braces after a character, unless it closes one that is not there. -/
def braceStep (d : Nat) (c : Char) : Option Nat :=
  if c = '\x7b' then some (d + 1)
  else if c = '\x7d' then (if d = 0 then none else some (d - 1))
  else some d

/-- The number of open braces after some text. -/
def braceDepth (d : Nat) (cs : List Char) : Option Nat := cs.foldlM braceStep d

theorem braceDepth_cons (d : Nat) (c : Char) (cs : List Char) :
    braceDepth d (c :: cs) = (braceStep d c).bind fun e => braceDepth e cs := by
  rw [braceDepth, List.foldlM_cons]
  rfl

/-- Text behind text goes on from the number that the first leaves. -/
theorem braceDepth_append (d : Nat) (cs ds : List Char) :
    braceDepth d (cs ++ ds) = (braceDepth d cs).bind fun e => braceDepth e ds := by
  rw [braceDepth, List.foldlM_append]
  rfl

/-- One of the two braces. -/
def isBrace (c : Char) : Bool := c == '\x7b' || c == '\x7d'

/-- A text without braces leaves the number alone. -/
theorem braceDepth_plain (d : Nat) {cs : List Char} (plain : cs.any isBrace = false) :
    braceDepth d cs = some d := by
  induction cs with
  | nil => rfl
  | cons c cs ih =>
      rw [List.any_cons, Bool.or_eq_false_iff] at plain
      have stays : braceStep d c = some d := by
        simp only [isBrace, Bool.or_eq_false_iff, beq_eq_false_iff_ne] at plain
        rw [braceStep, if_neg plain.1.1, if_neg plain.1.2]
      rw [braceDepth_cons, stays, Option.bind_some, ih plain.2]

/-- The fronts of a text with one more character ahead. -/
theorem forall_front_cons_iff (d : Nat) (c : Char) (cs : List Char) :
    (∀ front, front <+: c :: cs → front.count '\x7d' ≤ d + front.count '\x7b') ↔
      ∀ front, front <+: cs → (c :: front).count '\x7d' ≤ d + (c :: front).count '\x7b' := by
  constructor
  · intro all front isFront
    exact all (c :: front) (List.cons_prefix_cons.mpr ⟨rfl, isFront⟩)
  · intro all front isFront
    rcases List.prefix_cons_iff.mp isFront with rfl | ⟨rest, rfl, isRest⟩
    · simp
    · exact all rest isRest

/-- The number goes from one to another if the braces add up, and if at no place more have
closed than were open. -/
theorem braceDepth_eq_some_iff (d e : Nat) (cs : List Char) :
    braceDepth d cs = some e ↔
      d + cs.count '\x7b' = e + cs.count '\x7d' ∧
      ∀ front, front <+: cs → front.count '\x7d' ≤ d + front.count '\x7b' := by
  have differ : '\x7b' ≠ '\x7d' := by decide
  -- One character moves the number by one or not at all, and the counts on both sides move with it.
  induction cs generalizing d with
  | nil => simp [braceDepth]
  | cons c cs ih =>
      rw [braceDepth_cons, forall_front_cons_iff, braceStep]
      by_cases opens : c = '\x7b'
      · subst opens
        rw [if_pos rfl, Option.bind_some]
        refine (ih (d + 1)).trans ?_
        simp only [List.count_cons_self, List.count_cons_of_ne differ, Nat.add_assoc,
          Nat.add_comm 1]
      by_cases closes : c = '\x7d'
      · subst closes
        rw [if_neg differ.symm, if_pos rfl]
        simp only [List.count_cons_self, List.count_cons_of_ne differ.symm]
        by_cases allClosed : d = 0
        · -- There is nothing to close, and the front up to here says so.
          rw [if_pos allClosed]
          refine iff_of_false (by simp) fun h => ?_
          have := h.2 [] List.nil_prefix
          simp only [List.count_nil] at this
          omega
        · rw [if_neg allClosed, Option.bind_some]
          refine (ih (d - 1)).trans (and_congr (by omega) (forall₂_congr fun front _ => by omega))
      · rw [if_neg opens, if_neg closes, Option.bind_some]
        refine (ih d).trans ?_
        simp only [List.count_cons_of_ne opens, List.count_cons_of_ne closes]

/-- A text is balanced if no brace is open after it, starting from none. -/
theorem braceBalanced_iff_braceDepth (s : String) :
    BraceBalanced s ↔ braceDepth 0 s.toList = some 0 := by
  rw [braceDepth_eq_some_iff]
  simp only [Nat.zero_add]
  exact ⟨fun ⟨even, ordered⟩ => ⟨even, ordered⟩, fun ⟨even, ordered⟩ => ⟨even, ordered⟩⟩

instance : DecidablePred BraceBalanced := fun s =>
  decidable_of_iff _ (braceBalanced_iff_braceDepth s).symm

/-- Then it leaves every number as it was. -/
theorem braceBalanced_iff (s : String) :
    BraceBalanced s ↔ ∀ d, braceDepth d s.toList = some d := by
  constructor
  · rintro ⟨even, ordered⟩ d
    refine (braceDepth_eq_some_iff d d _).mpr ⟨by omega, fun front isFront => ?_⟩
    have := ordered front isFront
    omega
  · intro level
    exact (braceBalanced_iff_braceDepth s).mpr (level 0)

/-- A text without braces is balanced. -/
theorem BraceBalanced.plain {s : String} (h : s.toList.any isBrace = false) : BraceBalanced s :=
  (braceBalanced_iff s).mpr fun d => braceDepth_plain d h

/-! ## Texts put together -/

/-- A text takes the number of open braces from one to another. -/
def BraceMoves (d e : Nat) (s : String) : Prop := braceDepth d s.toList = some e

namespace BraceMoves

variable {d e f : Nat} {s s' : String}

/-- One text behind another. -/
theorem append (first : BraceMoves d e s) (second : BraceMoves e f s') :
    BraceMoves d f (s ++ s') := by
  rw [BraceMoves, String.toList_append, braceDepth_append, first, Option.bind_some, second]

theorem ofBalanced (balanced : BraceBalanced s) (d : Nat) : BraceMoves d d s :=
  (braceBalanced_iff s).mp balanced d

/-- A balanced text behind another does not show. -/
theorem splice (first : BraceMoves d e s) (balanced : BraceBalanced s') :
    BraceMoves d e (s ++ s') :=
  first.append (.ofBalanced balanced e)

end BraceMoves

/-! ## Labels -/

/-- A text without braces at the end does not count. -/
theorem braceDepth_append_plain (d : Nat) (cs : List Char) {ds : List Char}
    (plain : ds.any isBrace = false) : braceDepth d (cs ++ ds) = braceDepth d cs := by
  rw [braceDepth_append]
  simp only [braceDepth_plain _ plain, Option.bind_fun_some]

/-- No blank is a brace. -/
theorem any_isBrace_takeWhile_isBlank (cs : List Char) :
    (cs.takeWhile isBlank).any isBrace = false := by
  rw [List.any_eq_false]
  intro c mem brace
  have blank : isBlank c = true := List.mem_takeWhile_imp mem
  simp only [isBrace, Bool.or_eq_true, beq_iff_eq] at brace
  rcases brace with rfl | rfl
  · exact absurd blank (by decide)
  · exact absurd blank (by decide)

/-- Blanks around a text play no part. -/
theorem braceDepth_trimBlanks (d : Nat) (cs : List Char) :
    braceDepth d (trimBlanks cs) = braceDepth d cs := by
  have front : cs.takeWhile isBlank ++ cs.dropWhile isBlank = cs :=
    List.takeWhile_append_dropWhile
  -- The text is what is trimmed off in front, what is left, and what is trimmed off behind.
  have back : trimBlanks cs ++ ((cs.dropWhile isBlank).reverse.takeWhile isBlank).reverse
      = cs.dropWhile isBlank := by
    rw [trimBlanks, ← List.reverse_append, List.takeWhile_append_dropWhile, List.reverse_reverse]
  calc braceDepth d (trimBlanks cs)
      = braceDepth d (cs.dropWhile isBlank) := by
        rw [← back, braceDepth_append_plain]
        rw [List.any_reverse, any_isBrace_takeWhile_isBlank]
    _ = braceDepth d cs := by
        conv_rhs => rw [← front, braceDepth_append,
          braceDepth_plain d (any_isBrace_takeWhile_isBlank cs), Option.bind_some]

/-- The parts of a text put together again lack the marks, and nothing else. -/
theorem flatten_cutAt_cons (mark c : Char) (cs : List Char) :
    (cutAt mark (c :: cs)).flatten
      = if c = mark then (cutAt mark cs).flatten else c :: (cutAt mark cs).flatten := by
  rw [cutAt, List.foldr_cons, ← cutAt]
  by_cases same : c = mark
  · rw [if_pos same, if_pos same, List.flatten_cons, List.nil_append]
  · rw [if_neg same, if_neg same]
    cases cutAt mark cs <;> rfl

/-- The commas at which a text is cut play no part either. -/
theorem braceDepth_flatten_cutAt (d : Nat) (cs : List Char) :
    braceDepth d (cutAt ',' cs).flatten = braceDepth d cs := by
  induction cs generalizing d with
  | nil => rfl
  | cons c cs ih =>
      rw [flatten_cutAt_cons]
      by_cases comma : c = ','
      · subst comma
        have stays : braceStep d ',' = some d := rfl
        rw [if_pos rfl, ih, braceDepth_cons, stays, Option.bind_some]
      · rw [if_neg comma, braceDepth_cons, braceDepth_cons]
        simp only [ih]

/-- What is put around a label balances. -/
theorem braceDepth_labelText {indent : String} (balanced : BraceBalanced indent) (d : Nat)
    (label : List Char) : braceDepth d (labelText indent label).toList = braceDepth d label := by
  have blank : BraceMoves d d ("\n" ++ indent) :=
    (BraceMoves.ofBalanced (.plain rfl) d).splice balanced
  rw [labelText, String.toList_append, braceDepth_append, blank, Option.bind_some,
    ← braceDepth_trimBlanks d label]
  -- The word `default` is written by itself, and has no braces; any other label stands behind the
  -- word `case`.
  by_cases default : String.ofList (trimBlanks label) = "default"
  · have trimmed : trimBlanks label = "default".toList := by
      rw [← default, String.toList_ofList]
    rw [default, trimmed]
    exact (braceDepth_plain d rfl).trans (braceDepth_plain d rfl).symm
  · -- The label stands between two fixed texts.
    rw [if_neg (by simpa using default), String.toList_append, String.toList_append,
      braceDepth_append_plain _ _ rfl, braceDepth_append, braceDepth_plain d rfl,
      Option.bind_some, String.toList_ofList]

/-- So labels on lines of their own move the number as they do in one text. -/
theorem braceDepth_labels {indent : String} (balanced : BraceBalanced indent) (d : Nat)
    (parts : List (List Char)) :
    braceDepth d (String.join (parts.map (labelText indent))).toList
      = braceDepth d parts.flatten := by
  induction parts generalizing d with
  | nil => rfl
  | cons part parts ih =>
      rw [List.map_cons, String.join_cons, String.toList_append, braceDepth_append,
        braceDepth_labelText balanced, List.flatten_cons, braceDepth_append]
      simp only [ih]

/-! ## Openings and closings -/

/-- The texts of a construct. -/
def BlockKind.texts : BlockKind → List String
  | ifThen condition => [condition]
  | forLoop init test update => [init, test, update]
  | doWhile left operator right => [left, operator, right]
  | switchOn expression => [expression]
  | caseOf labels => [labels]

namespace Block

/-- The number of braces around the body of a block. -/
def braces (b : Block) : Nat :=
  match b.kind with
  | .ifThen _ | .forLoop _ _ _ => if b.isSimple then 0 else 1
  | .doWhile _ _ _ | .switchOn _ => 1
  | .caseOf _ => 0

variable {b : Block} {indent : String}

/-- The opening of a construct that goes without braces around a single child. -/
theorem moves_openBrace (b : Block) (d : Nat) :
    BraceMoves d (d + if b.isSimple then 0 else 1) (if b.isSimple then "\n" else "\x7b\n") := by
  cases b.isSimple with
  | true => exact .ofBalanced (.plain rfl) d
  | false => rfl

/-- It goes without the closing one exactly if it went without the other. -/
theorem moves_closeBrace (b : Block) (d : Nat) :
    BraceMoves (d + if b.isSimple then 0 else 1) d (if b.isSimple then "\n" else "\x7d\n") := by
  cases b.isSimple with
  | true => exact .ofBalanced (.plain rfl) d
  | false => rfl

/-- The labels of a block move the number as they do in one text. -/
theorem moves_labels {labels : String} (text : BraceBalanced labels)
    (balanced : BraceBalanced indent) (d : Nat) :
    BraceMoves d d (String.join ((cutAt ',' labels.toList).map (labelText indent)) ++ "\n") := by
  rw [BraceMoves, String.toList_append, braceDepth_append_plain _ _ rfl,
    braceDepth_labels balanced, braceDepth_flatten_cutAt]
  exact BraceMoves.ofBalanced text d

/-- A block opens its braces. -/
theorem moves_entry (texts : ∀ text ∈ b.kind.texts, BraceBalanced text)
    (balanced : BraceBalanced indent) (d : Nat) :
    BraceMoves d (d + b.braces) (b.entry indent) := by
  have brace := b.moves_openBrace d
  obtain ⟨kind, children⟩ := b
  -- Where a kind opens a brace it does so at the end, behind the texts that are put in, and these
  -- are balanced.
  cases kind with
  | ifThen condition =>
      simp only [BlockKind.texts, List.forall_mem_cons] at texts
      have head : BraceMoves d d ("if (" ++ condition ++ ") ") :=
        ((BraceMoves.ofBalanced (.plain rfl) d).splice texts.1).splice (.plain rfl)
      exact head.append brace
  | forLoop init test update =>
      simp only [BlockKind.texts, List.forall_mem_cons] at texts
      obtain ⟨first, second, third, -⟩ := texts
      have clauses : BraceMoves d d ("for (" ++ init ++ ";" ++ test ++ ";" ++ update) :=
        (((((BraceMoves.ofBalanced (.plain rfl) d).splice first).splice
          (.plain rfl)).splice second).splice (.plain rfl)).splice third
      exact (clauses.splice (.plain rfl)).append brace
  | doWhile left operator right =>
      have opens : BraceMoves d (d + 1) "do \x7b\n" := rfl
      exact opens
  | switchOn expression =>
      simp only [BlockKind.texts, List.forall_mem_cons] at texts
      have opens : BraceMoves d (d + 1) ") \x7b\n" := rfl
      exact ((BraceMoves.ofBalanced (.plain rfl) d).splice texts.1).append opens
  | caseOf labels =>
      simp only [BlockKind.texts, List.forall_mem_cons] at texts
      exact moves_labels texts.1 balanced d

/-- And it closes those that it opened. -/
theorem moves_exit (texts : ∀ text ∈ b.kind.texts, BraceBalanced text)
    (balanced : BraceBalanced indent) (d : Nat) :
    BraceMoves (d + b.braces) d (b.exit indent) := by
  have brace := b.moves_closeBrace d
  obtain ⟨kind, children⟩ := b
  -- Where a kind closes a brace it does so at the front, before any text that is put in.
  cases kind with
  | ifThen condition => exact brace
  | forLoop init test update => exact brace
  | doWhile left operator right =>
      simp only [BlockKind.texts, List.forall_mem_cons] at texts
      obtain ⟨first, second, third, -⟩ := texts
      have closes : BraceMoves (d + 1) d "\x7d while (" := rfl
      have operands : BraceMoves (d + 1) d
          ("\x7d while (" ++ left ++ " " ++ operator ++ " " ++ right) :=
        ((((closes.splice first).splice (.plain rfl)).splice second).splice
          (.plain rfl)).splice third
      exact operands.splice (.plain rfl)
  | switchOn expression =>
      have line : BraceMoves (d + 1) (d + 1) ("\n" ++ indent) :=
        (BraceMoves.ofBalanced (.plain rfl) (d + 1)).splice balanced
      have closes : BraceMoves (d + 1) d "\x7d\n" := rfl
      exact line.append closes
  | caseOf labels =>
      have nothing : BraceMoves d d "" := rfl
      exact nothing

end Block

/-! ## The output -/

namespace BlockTree

/-- A text that is spliced into the output from a start on: one of a block below the start, or
of a line that such a block lists. -/
inductive Splices (t : BlockTree) (s : Nat) : String → Prop
  | ofKind {low : Nat} {b : Block} {text : String} :
      t.Below s low → t.get? low = some b → text ∈ b.kind.texts → Splices t s text
  | ofLine {low : Nat} {b : Block} {line : Statement} :
      t.Below s low → t.get? low = some b → .statement line ∈ b.children → Splices t s line.text

/-- What is spliced into the output from a child on is spliced into that of its parent. -/
theorem Splices.up {t : BlockTree} {s child : Nat} (lists : t.Lists s child) {text : String}
    (h : t.Splices child text) : t.Splices s text := by
  cases h with
  | ofKind below found mem => exact .ofKind (.head lists below) found mem
  | ofLine below found mem => exact .ofLine (.head lists below) found mem

/-- The text of some pieces put together. -/
def joined (ps : List Piece) : String := String.join (ps.map Piece.text)

/-- Pieces behind pieces are text behind text. -/
theorem joined_append (ps qs : List Piece) : joined (ps ++ qs) = joined ps ++ joined qs := by
  rw [joined, List.map_append, String.join_append]
  rfl

theorem joined_cons (p : Piece) (ps : List Piece) : joined (p :: ps) = p.text ++ joined ps := by
  rw [joined, List.map_cons, String.join_cons]
  rfl

/-- Children that each leave the number alone do so together. -/
theorem moves_joined_flatMap {d : Nat} {pieces : Child → List Piece} {children : List Child}
    (each : ∀ c ∈ children, BraceMoves d d (joined (pieces c))) :
    BraceMoves d d (joined (children.flatMap pieces)) := by
  induction children with
  | nil => rfl
  | cons c children ih =>
      rw [List.forall_mem_cons] at each
      rw [List.flatMap_cons, joined_append]
      exact each.1.append (ih each.2)

/-- From every block on the output leaves the number of open braces as it was. The induction is
on the depth of the walk. -/
theorem moves_piecesWithin {t : BlockTree} {unit : String} (unitBalanced : BraceBalanced unit)
    {depth id : Nat} {indent : String} (balanced : BraceBalanced indent)
    (texts : ∀ text, t.Splices id text → BraceBalanced text) (d : Nat) :
    BraceMoves d d (joined (t.piecesWithin unit depth id indent)) := by
  induction depth generalizing id indent d with
  | zero => rfl
  | succ depth ih =>
      cases found : t.get? id with
      | none =>
          rw [piecesWithin, found]
          rfl
      | some b =>
          have own : ∀ text ∈ b.kind.texts, BraceBalanced text := fun text mem =>
            texts text (.ofKind .refl found mem)
          have inner : BraceBalanced (indent ++ unit) := (braceBalanced_iff _).mpr fun d =>
            (BraceMoves.ofBalanced balanced d).splice unitBalanced
          -- A child block is balanced by the induction hypothesis, and a line by its text.
          have child : ∀ c ∈ b.children, ∀ d,
              BraceMoves d d (joined (t.childPieces unit depth id (indent ++ unit) c)) := by
            intro c mem d
            cases c with
            | block child =>
                have lists : t.Lists id child := mem_listed.mpr (children_of_get? found ▸ mem)
                exact ih inner (fun text h => texts text (h.up lists)) d
            | statement line =>
                have text := texts line.text (.ofLine .refl found mem)
                have body : BraceMoves d d (indent ++ unit ++ line.text ++ "\n") :=
                  ((BraceMoves.ofBalanced inner d).splice text).splice (.plain rfl)
                rw [childPieces_statement, joined_cons]
                exact body.splice (.plain rfl)
          -- The opening goes up by the braces of the block, the children stay there, and the
          -- closing comes back.
          have inside := moves_joined_flatMap fun c mem => child c mem (d + b.braces)
          have opening := (BraceMoves.ofBalanced balanced d).append
            (Block.moves_entry own balanced d)
          have closing := (BraceMoves.ofBalanced balanced (d + b.braces)).append
            (Block.moves_exit own balanced d)
          rw [piecesWithin_succ found, joined_append, joined_cons, joined_cons]
          exact (opening.append inside).append (closing.splice (.plain rfl))

/-- **Braces balance.** If all texts that are spliced into the output balance, the indentation
and the unit among them, then so does the output. This needs nothing of the tree, so it holds
of every tree that can be made. -/
theorem render_balanced (t : BlockTree) {unit indent : String} {s : Nat} (known : s < t.size)
    (unitBalanced : BraceBalanced unit) (balanced : BraceBalanced indent)
    (texts : ∀ text, t.Splices s text → BraceBalanced text) :
    ∃ text, t.render unit s indent = some text ∧ BraceBalanced text := by
  have flat := flatten_of_known known unit indent
  refine ⟨joined (t.pieces unit s indent), ?_, ?_⟩
  · rw [render_eq, flat, Option.map_some, joined]
  · exact (braceBalanced_iff _).mpr (moves_piecesWithin unitBalanced balanced texts)

/-- A brace that opens in one label and closes in the next, an `if` without braces, a loop with
braces, and a line that has some of its own. -/
def labelSample : BlockTree :=
  (ofRoot (.switchOn "x")).afterAll
    [.addBlock 0 (.caseOf "'\x7b' , '\x7d'"), .addBlock 1 (.ifThen "a"),
     .addBlock 2 (.doWhile "i" "<" "n"), .addStatement 3 "f(new int[] \x7bi\x7d);" .body]

/-- Also at an indentation that has braces in it. -/
theorem labelSample_balanced :
    0 < labelSample.size ∧ BraceBalanced " " ∧ BraceBalanced "\x7b \x7d" ∧
    (∀ text, labelSample.Splices 0 text → BraceBalanced text) ∧
    ∃ text, labelSample.render " " 0 "\x7b \x7d" = some text ∧ BraceBalanced text := by
  have known : 0 < labelSample.size := by decide
  have unitBalanced : BraceBalanced " " := by decide
  have balanced : BraceBalanced "\x7b \x7d" := by decide
  have each : ∀ b ∈ labelSample.blocks.toList, (∀ text ∈ b.kind.texts, BraceBalanced text) ∧
      ∀ line ∈ b.children.filterMap Child.line?, BraceBalanced line.text := by decide
  have texts : ∀ text, labelSample.Splices 0 text → BraceBalanced text := by
    intro text h
    cases h with
    | ofKind below found mem => exact (each _ (Array.mem_of_getElem? found).val).1 text mem
    | ofLine below found mem =>
        exact (each _ (Array.mem_of_getElem? found).val).2 _ (List.mem_filterMap.mpr ⟨_, mem, rfl⟩)
  exact ⟨known, unitBalanced, balanced, texts,
    render_balanced labelSample known unitBalanced balanced texts⟩

end BlockTree

end ClassOutline
