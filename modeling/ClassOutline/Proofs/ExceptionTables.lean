import ClassOutline.Proofs.ClassLayout

/-!
What becomes of the entries of exception tables.

An entry has the index of a class, or 0 for all of them. A handler that was read has the name of
the class, and for 0 the word for any class; the index is gone, and `Handler.catchesAny` looks at
the name. To compare the two, the bytes of a body are taken apart as far as the tables in them go,
also those of the bodies inside it (`AttributeLayout`). Whatever is read comes from such a layout
(`takes_decodeBody`), whatever has one is read (`BodySpells.reads`), and the handlers that were
read are its entries, one for one and in order, with names in the place of indices
(`BodySpells.forall₂_handlers`).

An index of 0 is read as the word for any class, and so is that of a class whose name is this
word. There are no other such indices: slashes become dots on the way, but the word has none. So a
handler is taken to catch everything if its index is 0 or its class has that name
(`Handler.catchesAny_iff`).
-/

set_option autoImplicit false

namespace ClassOutline

open Decoder

/-! ## Handlers at all depths -/

namespace Attribute

mutual

/-- The handlers in an attribute, at all depths. -/
def handlers : Attribute → List (Handler String)
  | code body => bodyHandlers body
  | _ => []

/-- The handlers of a method body, and behind them those of the bodies inside it. -/
def bodyHandlers : Code String Attribute → List (Handler String)
  | ⟨_, _, _, table, attributes⟩ => table ++ handlersEach attributes

/-- The handlers in a list of attributes. -/
def handlersEach : List Attribute → List (Handler String)
  | [] => []
  | first :: rest => handlers first ++ handlersEach rest

end

end Attribute

/-! ## Layouts -/

/-- The bytes of an attribute. Those of a method body are taken apart, behind the index of its
name and its declared length. -/
inductive AttributeLayout where
  | body (name : UInt16) (length : UInt32) (fields : Code UInt16 AttributeLayout)
  | other (bytes : List UInt8)

namespace AttributeLayout

mutual

def bytes : AttributeLayout → List UInt8
  | body name length fields => bytes16 name ++ (bytes32 length ++ bodyBytes fields)
  | other bytes => bytes

/-- The bytes of a method body behind its frame. -/
def bodyBytes : Code UInt16 AttributeLayout → List UInt8
  | ⟨maxStack, maxLocals, bytecode, table, attributes⟩ =>
      bytes16 maxStack ++ (bytes16 maxLocals ++ (bigEndian 4 bytecode.length ++ (bytecode ++
        (countedBytes Handler.encode table ++ countedBytes id (bytesEach attributes)))))

def bytesEach : List AttributeLayout → List (List UInt8)
  | [] => []
  | first :: rest => bytes first :: bytesEach rest

end

mutual

/-- The entries of the exception tables in a layout, in the order of `Attribute.handlers`. -/
def entries : AttributeLayout → List (Handler UInt16)
  | body _ _ fields => bodyEntries fields
  | other _ => []

def bodyEntries : Code UInt16 AttributeLayout → List (Handler UInt16)
  | ⟨_, _, _, table, attributes⟩ => table ++ entriesEach attributes

def entriesEach : List AttributeLayout → List (Handler UInt16)
  | [] => []
  | first :: rest => entries first ++ entriesEach rest

end

mutual

/-- The layout spells this attribute. -/
def Spells (settings : Settings) (r : Resolver) : AttributeLayout → Attribute → Prop
  | body name _ fields, a =>
      r .utf8 name = .ok AttributeKind.code.name ∧
        ∃ made, a = .code made ∧ BodySpells settings r fields made
  | other bytes, a => Attribute.Spelled settings r bytes a ∧ ∀ made, a ≠ .code made

/-- The fields spell this method body: those that are not looked up are the same, the entries of
the table are resolved, and the attributes are spelled. -/
def BodySpells (settings : Settings) (r : Resolver) :
    Code UInt16 AttributeLayout → Code String Attribute → Prop
  | ⟨maxStack, maxLocals, bytecode, table, attributes⟩, made =>
      (bytecode.length < UInt32.size ∧ table.length ≤ 65535 ∧ attributes.length ≤ 65535) ∧
      made.maxStack = maxStack ∧ made.maxLocals = maxLocals ∧ made.bytecode = bytecode ∧
      List.Forall₂ (fun entry h => Handler.resolved? r entry = some h) table made.handlers ∧
      SpellsEach settings r attributes made.attributes

def SpellsEach (settings : Settings) (r : Resolver) :
    List AttributeLayout → List Attribute → Prop
  | [], as => as = []
  | first :: rest, as =>
      ∃ a more, as = a :: more ∧ Spells settings r first a ∧ SpellsEach settings r rest more

end

/-- Each attribute has bytes of its own. -/
theorem length_bytesEach (ls : List AttributeLayout) : (bytesEach ls).length = ls.length := by
  induction ls with
  | nil => rfl
  | cons first rest ih => rw [bytesEach, List.length_cons, List.length_cons, ih]

end AttributeLayout

/-! ## What was read has a layout -/

namespace Attribute

open AttributeLayout

variable {settings : Settings} {r : Resolver}

/-- Attributes that have a layout each have a list of them. -/
theorem exists_layouts {parts : List (List UInt8)} {as : List Attribute}
    (each : List.Forall₂ (fun part a => ∃ l : AttributeLayout,
      l.bytes = part ∧ l.Spells settings r a) parts as) : ∃ ls, bytesEach ls = parts ∧ SpellsEach settings r ls as := by
  induction each with
  | nil => exact ⟨[], rfl, rfl⟩
  | cons first _ ih =>
      obtain ⟨l, rfl, spells⟩ := first
      obtain ⟨ls, rfl, others⟩ := ih
      exact ⟨l :: ls, rfl, _, _, rfl, spells, others⟩

/-- The fields of a method body are a layout if its attributes are. -/
theorem Payload.exists_bodyLayout {frame : Frame} {fields : List UInt8}
    {made : Code String Attribute}
    (payload : Payload settings r (fun part a => ∃ l : AttributeLayout, l.bytes = part ∧
      l.Spells settings r a) frame fields (.code made)) :
    frame.name = AttributeKind.code.name ∧
      ∃ l, bodyBytes l = fields ∧ BodySpells settings r l made := by
  cases payload with
  | skipped skips _ => cases skips
  | @code _ maxStack maxLocals bytecode table _ parts _ short few fewer resolved inside =>
      obtain ⟨ls, rfl, spells⟩ := exists_layouts inside
      rw [length_bytesEach] at fewer
      exact ⟨rfl, ⟨maxStack, maxLocals, bytecode, table, ls⟩, rfl, ⟨short, few, fewer⟩, rfl, rfl,
        rfl, resolved, spells⟩

/-- Every attribute has a layout. The induction is on the number of bytes, which are fewer for
the attributes inside one. -/
theorem Spelled.exists_layout {bytes : List UInt8} {a : Attribute}
    (spelled : Spelled settings r bytes a) :
    ∃ l : AttributeLayout, l.bytes = bytes ∧ l.Spells settings r a := by
  induction size : bytes.length using Nat.strongRecOn generalizing bytes a with
  | ind n ih =>
      -- A method body is taken apart; any other attribute is left as bytes.
      by_cases isBody : ∃ made, a = .code made
      · obtain ⟨made, rfl⟩ := isBody
        cases spelled with
        | @framed index frame fields _ named payload =>
            have inside : ∀ part, ∀ b ∈ (code made).inside, part.length ≤ fields.length →
                Spelled settings r part b →
                  ∃ l : AttributeLayout, l.bytes = part ∧ l.Spells settings r b := by
              intro part b _ short inner
              refine ih part.length ?_ inner rfl
              rw [← size, List.length_append, bytes16, bigEndian_length, List.length_append]
              omega
            obtain ⟨isCode, l, rfl, spells⟩ := (payload.imp inside).exists_bodyLayout
            exact ⟨.body index frame.length l, rfl, isCode ▸ named, made, rfl, spells⟩
      · exact ⟨.other bytes, rfl, spelled, not_exists.mp isBody⟩

/-- A method body was read from the bytes of a layout that spells it. -/
theorem takes_decodeBody : Takes (Code.decode settings r) fun taken made =>
    ∃ l, taken = bodyBytes l ∧ BodySpells settings r l made := by
  rw [Code.decode_eq]
  intro e c made next run
  obtain ⟨taken, unread, payload⟩ := takes_code takes_decode _ _ _ _ run
  have inside : Payload settings r (fun part a => ∃ l : AttributeLayout, l.bytes = part ∧
      l.Spells settings r a) ⟨AttributeKind.code.name, 0⟩ taken (.code made) :=
    (payload 0).imp fun _ _ _ _ inner => inner.exists_layout
  obtain ⟨-, l, rfl, spells⟩ := inside.exists_bodyLayout
  exact ⟨_, unread, l, rfl, spells⟩

end Attribute

/-! ## What has a layout is read -/

namespace AttributeLayout

variable {settings : Settings} {r : Resolver}

mutual

/-- What is spelled by a layout is spelled by its bytes. -/
theorem Spells.spelled : ∀ {l : AttributeLayout} {a : Attribute}, l.Spells settings r a →
    Attribute.Spelled settings r l.bytes a
  | .body index length _, a, spells => by
      obtain ⟨named, made, rfl, inner⟩ := spells
      exact @Attribute.Spelled.framed _ _ index ⟨AttributeKind.code.name, length⟩ _ _ named
        (BodySpells.payload inner length)
  | .other _, a, spells => spells.1

/-- The fields are what the grammar asks for, whatever length is declared. -/
theorem BodySpells.payload : ∀ {l : Code UInt16 AttributeLayout} {made : Code String Attribute},
    BodySpells settings r l made → ∀ length : UInt32,
      Attribute.Payload settings r (Attribute.Spelled settings r)
        ⟨AttributeKind.code.name, length⟩ (bodyBytes l) (.code made)
  | ⟨_, _, _, _, _⟩, ⟨_, _, _, _, _⟩, spells, _ => by
      obtain ⟨⟨short, few, fewer⟩, rfl, rfl, rfl, resolved, each⟩ := spells
      rw [← length_bytesEach] at fewer
      exact .code short few fewer resolved (SpellsEach.spelled each)

theorem SpellsEach.spelled : ∀ {ls : List AttributeLayout} {as : List Attribute},
    SpellsEach settings r ls as →
      List.Forall₂ (Attribute.Spelled settings r) (bytesEach ls) as
  | [], as, each => by
      obtain rfl : as = [] := each
      exact .nil
  | first :: rest, as, each => by
      obtain ⟨a, more, rfl, spells, others⟩ := each
      exact .cons (Spells.spelled spells) (SpellsEach.spelled others)

end

/-- The bytes of a layout are read as the method body it spells. -/
theorem BodySpells.reads {l : Code UInt16 AttributeLayout} {made : Code String Attribute}
    (spells : BodySpells settings r l made) :
    Reads (Code.decode settings r) (bodyBytes l) made := by
  rw [Code.decode_eq]
  exact ((spells.payload 0).imp fun _ _ _ _ inner => inner.reads_decode).reads_code

end AttributeLayout

/-! ## Entry by entry -/

namespace AttributeLayout

variable {settings : Settings} {r : Resolver}

mutual

/-- The handlers of an attribute are its entries, each with its index resolved. -/
theorem Spells.forall₂_handlers : ∀ {l : AttributeLayout} {a : Attribute},
    l.Spells settings r a →
      List.Forall₂ (fun entry h => Handler.resolved? r entry = some h) l.entries a.handlers
  | .body _ _ fields, a, spells => by
      obtain ⟨-, made, rfl, inner⟩ := spells
      exact BodySpells.forall₂_handlers inner
  | .other _, a, spells => by
      obtain ⟨-, notBody⟩ := spells
      cases a with
      | code made => exact absurd rfl (notBody made)
      | _ => exact .nil

/-- The handlers that were read are the entries, each with its index resolved. -/
theorem BodySpells.forall₂_handlers : ∀ {l : Code UInt16 AttributeLayout}
    {made : Code String Attribute}, BodySpells settings r l made →
      List.Forall₂ (fun entry h => Handler.resolved? r entry = some h) (bodyEntries l)
        (Attribute.bodyHandlers made)
  | ⟨_, _, _, table, attributes⟩, ⟨_, _, _, caught, inner⟩, spells => by
      obtain ⟨-, -, -, -, resolved, each⟩ := spells
      exact List.rel_append resolved (SpellsEach.forall₂_handlers each)

theorem SpellsEach.forall₂_handlers : ∀ {ls : List AttributeLayout} {as : List Attribute},
    SpellsEach settings r ls as →
      List.Forall₂ (fun entry h => Handler.resolved? r entry = some h) (entriesEach ls)
        (Attribute.handlersEach as)
  | [], as, each => by
      obtain rfl : as = [] := each
      exact .nil
  | first :: rest, as, each => by
      obtain ⟨a, more, rfl, spells, others⟩ := each
      exact List.rel_append (Spells.forall₂_handlers spells) (SpellsEach.forall₂_handlers others)

end

end AttributeLayout

/-! ## The word for any class -/

/-- The class at an index is called by the word for any class. -/
def Pool.NamesAny (p : Pool) (index : UInt16) : Prop :=
  ∃ textIndex, p.get? index = some (.classRef textIndex) ∧
    p.get? textIndex = some (.utf8 anyClass)

/-- No name becomes this word by its slashes becoming dots. -/
theorem Pool.namesClass_anyClass_iff {p : Pool} {index : UInt16} (other : index ≠ 0) :
    p.NamesClass index anyClass ↔ p.NamesAny index := by
  constructor
  · rintro ⟨-, textIndex, text, found, spelled, same⟩
    have isWord : text = anyClass := eq_of_dotted_eq (by decide) (eq_dotted_iff.mpr same).symm
    exact ⟨textIndex, found, isWord ▸ spelled⟩
  · rintro ⟨textIndex, found, spelled⟩
    exact ⟨other, textIndex, anyClass, found, spelled, by decide⟩

/-- A handler is taken to catch everything if its index was 0, or that of a class called by the
word for any class. -/
theorem Handler.catchesAny_iff {p : Pool} {entry : Handler UInt16} {h : Handler String}
    (resolved : entry.resolved? p.resolver = some h) :
    h.catchesAny = true ↔ entry.catchType = 0 ∨ p.NamesAny entry.catchType := by
  rw [catchesAny, beq_iff_eq]
  -- Index 0 is read as the word without a lookup; any other index by the name of its class.
  by_cases zero : entry.catchType = 0
  · rw [resolved?, if_pos zero] at resolved
    cases resolved
    simp [zero]
  · rw [resolved?, if_neg zero] at resolved
    cases answer : p.resolver .className entry.catchType with
    | error error =>
        rw [answer] at resolved
        cases resolved
    | ok name =>
        rw [answer] at resolved
        cases resolved
        have named := (Pool.className_eq_ok_iff_namesClass zero).mp answer
        rw [← Pool.namesClass_anyClass_iff zero]
        constructor
        · intro isWord
          exact .inr (isWord ▸ named)
        · rintro (isZero | isWord)
          · exact absurd isZero zero
          · -- An index has one answer.
            rw [← Pool.className_eq_ok_iff_namesClass zero] at isWord
            exact Except.ok.inj (answer.symm.trans isWord)

/-- **What catches everything.** A method body is read from bytes with exception tables in them,
its own and those of the bodies inside it, and its handlers are the entries of these tables, one
for one. A handler is taken to catch everything if and only if the index in its entry is 0, or
the class at the index is called by the word for any class. All bytes that are laid out like this
are read. -/
theorem Code.catchesAny_iff_entry (settings : Settings) (p : Pool) (e : Ending)
    (bytes unread : List UInt8) (journal : List Event) (made : Code String Attribute) :
    (∃ journal', Code.decode settings p.resolver e ⟨bytes, journal⟩
        = .done made ⟨unread, journal'⟩) ↔
      ∃ l, bytes = AttributeLayout.bodyBytes l ++ unread ∧
        AttributeLayout.BodySpells settings p.resolver l made ∧
        List.Forall₂ (fun entry h => Handler.catchesAny h = true ↔
            Handler.catchType entry = 0 ∨ p.NamesAny (Handler.catchType entry))
          (AttributeLayout.bodyEntries l) (Attribute.bodyHandlers made) := by
  constructor
  · rintro ⟨journal', run⟩
    obtain ⟨_, front, l, rfl, spells⟩ := Attribute.takes_decodeBody _ _ _ _ run
    refine ⟨l, front, spells, ?_⟩
    exact (AttributeLayout.BodySpells.forall₂_handlers spells).imp fun _ _ resolved =>
      Handler.catchesAny_iff resolved
  · rintro ⟨l, rfl, spells, -⟩
    exact spells.reads e unread journal

/-- A pool with a class `a.E` and one that is called `any`. -/
def anyNamed : Pool :=
  ⟨#[none, some (.utf8 "Code"), some (.utf8 "a/E"), some (.classRef 2), some (.utf8 "any"),
    some (.classRef 4)]⟩

/-- A body with a handler for everything. In it there is one with handlers for `a.E` and for the
class that is called `any`. -/
def tablesSample : Code UInt16 AttributeLayout :=
  ⟨1, 1, [0xB1], [⟨0, 1, 1, 0⟩], [.body 1 0 ⟨0, 0, [], [⟨0, 0, 0, 3⟩, ⟨0, 0, 0, 5⟩], []⟩]⟩

/-- The last entry has an index other than 0, and yet its handler is taken to catch everything. -/
theorem tablesSample_named_any :
    (AttributeLayout.bodyEntries tablesSample).map Handler.catchType = [0, 3, 5] ∧
    ((Code.decode {} anyNamed.resolver).verdict
        (AttributeLayout.bodyBytes tablesSample)).toOption.map
        (fun result => ((Attribute.bodyHandlers result.1).map Handler.catchesAny, result.2))
      = some ([true, false, true], []) := by
  decide +kernel

end ClassOutline
