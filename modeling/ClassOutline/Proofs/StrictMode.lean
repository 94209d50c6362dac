import ClassOutline.Proofs.AttributeFrame
import ClassOutline.Proofs.AttributeRoundTrip
import ClassOutline.Proofs.FailureCauses

/-!
Strict mode adds one kind of rejection, and no other difference.

A strict and a lenient decoder part at markers that have a payload (`Marker`): the lenient
one skips the payload and goes on, the strict one skips it and fails. At every other place
they do the same. So the strict run is the lenient run up to the first such marker that the
lenient run reads, at whatever depth, and ends there (`Decides`).

Which attributes a run reads is said by `ReadsAt`: those that the decoder calls its reader
at, and, for each of them, those inside it. The comparison of the two runs follows this
definition. One attribute is compared by its frame (`Attribute.decodeWith_eq_of_isAt`,
`Attribute.decodeWith_eq_of_not_isAt`), the attributes inside it by induction on the
number of unread bytes, and anything that reads attributes by
`ClassOutline.Context.agree_until` (`Context.decides`).

A resolver is free to answer a lookup with any error, and so to call an attribute malformed
itself. Then the run ends with this answer in either mode, and the journal tells it from a
refusal (`Outcome.Accounted.answeredLast_of_malformed`). A constant pool has no such answers.
-/

set_option autoImplicit false

namespace ClassOutline

open Decoder

/-! ## Markers with a payload -/

/-- A marker that declares a payload, and what comes behind the payload. -/
structure Marker where
  kind : AttributeKind
  isMarker : kind.IsMarker
  length : UInt32
  nonempty : length ≠ 0
  rest : List UInt8

namespace Marker

/-- The complete record of the marker stands at the front of the bytes: an index with the
name of its kind, its length, and a payload of this length. -/
def IsAt (m : Marker) (r : Resolver) (unread : List UInt8) : Prop :=
  ∃ index payload, r .utf8 index = .ok m.kind.name ∧ payload.length = m.length.toNat ∧
    unread = bytes16 index ++ (bytes32 m.length ++ (payload ++ m.rest))

/-- What strict mode says of the marker. -/
def refusal (m : Marker) : Error :=
  .malformedAttribute m.kind.name s!"expected length 0, found {m.length.toNat}"

end Marker

namespace Attribute

variable {settings other : Settings} {r : Resolver} {nested : Decoder Attribute} {e : Ending}
  {c : Cursor}

/-- A marker is read as a marker whatever else there is. -/
theorem decodeKnown_of_isMarker {kind : AttributeKind} (isMarker : kind.IsMarker)
    (length : UInt32) : ∃ marker, ∀ settings r nested,
      decodeKnown settings r nested length kind = decodeMarker settings kind length marker := by
  rcases isMarker with rfl | rfl
  · exact ⟨deprecated, fun _ _ _ => rfl⟩
  · exact ⟨synthetic, fun _ _ _ => rfl⟩

/-- Any other kind is read without a look at the settings. -/
theorem decodeKnown_of_not_isMarker {kind : AttributeKind} (other : ¬ kind.IsMarker)
    (settings settings' : Settings) (length : UInt32) :
    decodeKnown settings r nested length kind = decodeKnown settings' r nested length kind := by
  cases kind with
  | deprecated => exact absurd (.inl rfl) other
  | synthetic => exact absurd (.inr rfl) other
  | _ => rfl

/-- A payload that is there is skipped, and then the settings decide. -/
theorem decodeMarker_of_payload {kind : AttributeKind} {length : UInt32} (nonempty : length ≠ 0)
    {payload rest : List UInt8} (complete : payload.length = length.toNat) (marker : Attribute)
    (journal : List Event) :
    decodeMarker settings kind length marker e ⟨payload ++ rest, journal⟩ =
      if settings.strict then
        .failed (.malformedAttribute kind.name s!"expected length 0, found {length.toNat}")
          ⟨rest, .markerPayload kind.name length :: journal⟩
      else .done marker ⟨rest, .markerPayload kind.name length :: journal⟩ := by
  have skipped : skip length.toNat e ⟨payload ++ rest, journal⟩ = .done () ⟨rest, journal⟩ := by
    rw [skip, ← complete]
    exact bind_of_done (take_append payload rest journal e)
  have noted : note (.markerPayload kind.name length) e ⟨rest, journal⟩ =
      .done () ⟨rest, .markerPayload kind.name length :: journal⟩ := rfl
  refine (bind_of_done skipped).trans ?_
  rw [if_neg nonempty]
  refine (bind_of_done noted).trans ?_
  split <;> rfl

/-- A marker without a payload, or with one that is not there in full, is read alike. -/
theorem decodeMarker_congr {kind : AttributeKind} {length : UInt32} (marker : Attribute)
    (h : length = 0 ∨ c.unread.length < length.toNat) (settings settings' : Settings) :
    decodeMarker settings kind length marker e c =
      decodeMarker settings' kind length marker e c := by
  rcases h with rfl | short
  · rfl
  · have starved : skip length.toNat e c = .failed e.error c :=
      bind_of_failed (take_of_short short e)
    exact (bind_of_failed starved).trans (bind_of_failed starved).symm

/-- Where a marker stands, the outcome is known but for the settings. -/
theorem decodeWith_eq_of_isAt {m : Marker} (isAt : m.IsAt r c.unread) (e : Ending) :
    ∃ marker journal, ∀ settings nested, decodeWith settings r nested e c =
      if settings.strict then .failed m.refusal ⟨m.rest, journal⟩
      else .done marker ⟨m.rest, journal⟩ := by
  obtain ⟨index, payload, answer, complete, unread⟩ := isAt
  obtain ⟨journal, framed⟩ := Frame.exists_decode_eq_done answer unread e
  obtain ⟨marker, read⟩ := decodeKnown_of_isMarker m.isMarker m.length
  refine ⟨marker, .markerPayload m.kind.name m.length :: journal, fun settings nested => ?_⟩
  refine (bind_of_done framed).trans ?_
  rw [decodePayload, AttributeKind.ofName?_name]
  dsimp only
  rw [read, decodeMarker_of_payload m.nonempty complete]
  rfl

/-- Where none stands, the settings make no difference to what is read at this level. -/
theorem decodeWith_eq_of_not_isAt (plain : ∀ m : Marker, ¬ m.IsAt r c.unread)
    (settings settings' : Settings) (nested : Decoder Attribute) (e : Ending) :
    decodeWith settings r nested e c = decodeWith settings' r nested e c := by
  cases framed : Frame.decode r e c with
  | failed error stop => exact (bind_of_failed framed).trans (bind_of_failed framed).symm
  | done frame mid =>
      refine (bind_of_done framed).trans (.trans ?_ (bind_of_done framed).symm)
      unfold decodePayload
      cases known : AttributeKind.ofName? frame.name with
      | none => rfl
      | some kind =>
          dsimp only
          by_cases isMarker : kind.IsMarker
          · obtain ⟨marker, read⟩ := decodeKnown_of_isMarker isMarker frame.length
            rw [read, read]
            apply decodeMarker_congr
            by_contra complete
            obtain ⟨nonempty, long⟩ := not_or.mp complete
            obtain ⟨index, answer, unread⟩ := Frame.decode_eq_done framed
            -- Otherwise there is a marker here, with the bytes behind its frame as payload.
            refine plain ⟨kind, isMarker, frame.length, nonempty,
              mid.unread.drop frame.length.toNat⟩ ⟨index, mid.unread.take frame.length.toNat, ?_, ?_, ?_⟩
            · rw [answer, AttributeKind.name_of_ofName? known]
            · exact List.length_take_of_le (Nat.le_of_not_lt long)
            · rw [List.take_append_drop, unread]
          · rw [decodeKnown_of_not_isMarker isMarker settings settings']

end Attribute

/-! ## The attributes that a run reads -/

/-- A reader of attributes that starts at `c` reads one at `stop`: the attribute at `c`, or
one inside it. -/
inductive Attribute.ReadAt (settings : Settings) (r : Resolver) (e : Ending) :
    Cursor → Cursor → Prop
  | here (c : Cursor) : ReadAt settings r e c c
  | inside {c mid stop : Cursor} :
      Calls (fun reader => decodeWith settings r (reader r)) (decode settings) e c r mid →
      ReadAt settings r e mid stop → ReadAt settings r e c stop

/-- A run of `F` from `c` reads an attribute at `stop`, at whatever depth, with the answers
of `r`. -/
def ReadsAt {α : Type} (F : AttributeReader → Decoder α) (settings : Settings) (e : Ending)
    (c : Cursor) (r : Resolver) (stop : Cursor) : Prop :=
  ∃ mid, Calls F (Attribute.decode settings) e c r mid ∧ Attribute.ReadAt settings r e mid stop

namespace Attribute.ReadAt

variable {settings : Settings} {r : Resolver} {e : Ending} {c stop : Cursor}

theorem le (h : ReadAt settings r e c stop) : stop.unread.length ≤ c.unread.length := by
  induction h with
  | here c => exact Nat.le_refl _
  | inside calls _ ih =>
      have := calls_lt calls
      omega

/-- In an attribute that is read to its end everything is, and not beyond that end. -/
theorem exists_done (h : ReadAt settings r e c stop) {x : Attribute} {last : Cursor}
    (run : decode settings r e c = .done x last) :
    ∃ y next, decode settings r e stop = .done y next ∧
      last.unread.length ≤ next.unread.length := by
  induction h generalizing x last with
  | here c => exact ⟨x, last, run, Nat.le_refl _⟩
  | inside calls _ ih =>
      -- The attribute around came to its end, so this one did, and no later.
      rw [decode_eq_decodeWith] at run
      obtain ⟨y, next, done, before⟩ :=
        (context_decodeWith settings r).done_of_calls (advances_decode settings) calls run
      obtain ⟨z, next', done', before'⟩ := ih done
      exact ⟨z, next', done', Nat.le_trans before before'⟩

/-- In lenient mode it is read to its end behind every marker in it. -/
theorem le_rest (h : ReadAt settings r e c stop) (lenient : settings.strict = false) {m : Marker}
    (isAt : m.IsAt r stop.unread) {x : Attribute} {last : Cursor}
    (run : decode settings r e c = .done x last) : last.unread.length ≤ m.rest.length := by
  obtain ⟨y, next, passed, before⟩ := h.exists_done run
  obtain ⟨marker, journal, outcome⟩ := decodeWith_eq_of_isAt isAt e
  rw [decode_eq_decodeWith, outcome, lenient, if_neg Bool.false_ne_true] at passed
  cases passed
  exact before

end Attribute.ReadAt

/-- An attribute is the one it is, and those inside it. -/
theorem readsAt_call_iff {settings : Settings} {r r' : Resolver} {e : Ending} {c stop : Cursor} :
    ReadsAt (fun reader => reader r) settings e c r' stop ↔
      r' = r ∧ Attribute.ReadAt settings r e c stop := by
  constructor
  · rintro ⟨mid, calls, isRead⟩
    obtain ⟨rfl, rfl⟩ := Context.calls_call_iff.mp calls
    exact ⟨rfl, isRead⟩
  · rintro ⟨rfl, isRead⟩
    exact ⟨c, Context.calls_call_iff.mpr ⟨rfl, rfl⟩, isRead⟩

/-! ## The first marker decides -/

/-- Of the markers at the places read, `m` comes first: all others begin behind it. -/
structure Marker.IsFirst (reads : Resolver → Cursor → Prop) (r : Resolver) (stop : Cursor)
    (m : Marker) : Prop where
  isRead : reads r stop
  isAt : m.IsAt r stop.unread
  others : ∀ r' stop' (m' : Marker), reads r' stop' → m'.IsAt r' stop'.unread →
    (r' = r ∧ stop' = stop) ∨ stop'.unread.length ≤ m.rest.length

/-- The strict outcome is the lenient one if there is no marker at any of the places read.
If there is one, it is the refusal of the first of them, which leaves what comes behind. -/
def Decides {α : Type} (reads : Resolver → Cursor → Prop) (lenient strict : Outcome α) : Prop :=
  ((∀ r stop (m : Marker), reads r stop → ¬ m.IsAt r stop.unread) ∧ strict = lenient) ∨
  ∃ r stop m journal, Marker.IsFirst reads r stop m ∧
    strict = .failed m.refusal ⟨m.rest, journal⟩

namespace Decides

variable {α : Type} {reads reads' : Resolver → Cursor → Prop} {lenient strict : Outcome α}

/-- Without a marker the two outcomes are the same. -/
theorem eq_of_forall_not_isAt (h : Decides reads lenient strict)
    (quiet : ∀ r stop (m : Marker), reads r stop → ¬ m.IsAt r stop.unread) : strict = lenient := by
  rcases h with ⟨-, same⟩ | ⟨r, stop, m, journal, first, -⟩
  · exact same
  · exact absurd first.isAt (quiet r stop m first.isRead)

/-- With one there is a first, and its refusal is the strict outcome. -/
theorem exists_isFirst (h : Decides reads lenient strict) {r : Resolver} {stop : Cursor}
    {m : Marker} (isRead : reads r stop) (isAt : m.IsAt r stop.unread) :
    ∃ r stop m journal, Marker.IsFirst reads r stop m ∧
      strict = .failed m.refusal ⟨m.rest, journal⟩ := by
  rcases h with ⟨quiet, -⟩ | refused
  · exact absurd isAt (quiet r stop m isRead)
  · exact refused

/-- Only the places with a marker count. -/
theorem congr
    (same : ∀ r stop (m : Marker), m.IsAt r stop.unread → (reads r stop ↔ reads' r stop))
    (h : Decides reads lenient strict) : Decides reads' lenient strict := by
  rcases h with ⟨quiet, run⟩ | ⟨r, stop, m, journal, first, run⟩
  · left
    refine ⟨fun r stop m isRead isAt => ?_, run⟩
    exact quiet r stop m ((same r stop m isAt).mpr isRead) isAt
  · right
    refine ⟨r, stop, m, journal, ⟨?_, first.isAt, fun r' stop' m' isRead isAt => ?_⟩, run⟩
    · exact (same r stop m first.isAt).mp first.isRead
    · exact first.others r' stop' m' ((same r' stop' m' isAt).mpr isRead) isAt

end Decides

section Compare

variable {lenient strict : Settings} {e : Ending} {c : Cursor}

/-- What is decided for every attribute that `F` reads is decided for `F`. -/
theorem Context.decides {α : Type} {F : AttributeReader → Decoder α} (hF : Context F)
    (isLenient : lenient.strict = false)
    (inside : ∀ r stop, Calls F (Attribute.decode lenient) e c r stop →
      Decides (ReadsAt (fun reader => reader r) lenient e stop)
        (Attribute.decode lenient r e stop) (Attribute.decode strict r e stop)) :
    Decides (ReadsAt F lenient e c) (F (Attribute.decode lenient) e c)
      (F (Attribute.decode strict) e c) := by
  -- The attributes on which the two readers differ are those with a marker in them.
  let marked : Resolver → Cursor → Prop := fun r stop =>
    ∃ stop' m, Attribute.ReadAt lenient r e stop stop' ∧ Marker.IsAt m r stop'.unread
  have agree : ∀ r stop, Calls F (Attribute.decode lenient) e c r stop → ¬ marked r stop →
      Attribute.decode strict r e stop = Attribute.decode lenient r e stop := by
    intro r stop calls plain
    apply (inside r stop calls).eq_of_forall_not_isAt
    intro r' stop' m isRead isAt
    obtain ⟨rfl, isRead⟩ := readsAt_call_iff.mp isRead
    exact plain ⟨stop', m, isRead, isAt⟩
  have refused : ∀ r stop, Calls F (Attribute.decode lenient) e c r stop → marked r stop →
      ∃ r' stop' m journal, Marker.IsFirst (ReadsAt (fun reader => reader r) lenient e stop)
          r' stop' m ∧
        Attribute.decode strict r e stop = .failed m.refusal ⟨m.rest, journal⟩ := by
    rintro r stop calls ⟨stop', m, isRead, isAt⟩
    exact (inside r stop calls).exists_isFirst (readsAt_call_iff.mpr ⟨rfl, isRead⟩) isAt
  have fails : ∀ r stop, Calls F (Attribute.decode lenient) e c r stop → marked r stop →
      ∃ error last, Attribute.decode strict r e stop = .failed error last := by
    intro r stop calls trouble
    obtain ⟨_, _, m, journal, -, run⟩ := refused r stop calls trouble
    exact ⟨_, _, run⟩
  rcases hF.agree_until (Attribute.advances_decode lenient) agree fails with
    ⟨quiet, same⟩ | ⟨r, stop, error, last, calls, trouble, run, whole, earliest⟩
  · left
    refine ⟨?_, same⟩
    rintro r stop m ⟨mid, calls, isRead⟩ isAt
    exact quiet r mid calls ⟨stop, m, isRead, isAt⟩
  · right
    obtain ⟨r', stop', m, journal, first, run'⟩ := refused r stop calls trouble
    obtain ⟨rfl, isRead⟩ := readsAt_call_iff.mp first.isRead
    cases run.symm.trans run'
    refine ⟨r', stop', m, journal, ⟨⟨stop, calls, isRead⟩, first.isAt, ?_⟩, whole⟩
    rintro r₂ stop₂ m₂ ⟨mid₂, calls₂, isRead₂⟩ isAt₂
    rcases earliest r₂ mid₂ calls₂ ⟨stop₂, m₂, isRead₂, isAt₂⟩ with
      ⟨rfl, rfl⟩ | ⟨x, next, done, behind⟩
    · exact first.others r₂ stop₂ m₂ (readsAt_call_iff.mpr ⟨rfl, isRead₂⟩) isAt₂
    · -- The lenient run of the earlier attribute came through its marker.
      have passed := isRead.le_rest isLenient first.isAt done
      exact .inr (Nat.le_trans isRead₂.le (Nat.le_trans behind passed))

/-- One attribute, with all that is in it. -/
theorem Attribute.decides (isLenient : lenient.strict = false) (isStrict : strict.strict = true)
    (r : Resolver) (e : Ending) (c : Cursor) :
    Decides (ReadsAt (fun reader => reader r) lenient e c) (decode lenient r e c)
      (decode strict r e c) := by
  induction size : c.unread.length using Nat.strongRecOn generalizing c with
  | ind n ih =>
    by_cases marked : ∃ m : Marker, m.IsAt r c.unread
    · obtain ⟨m, isAt⟩ := marked
      obtain ⟨marker, journal, outcome⟩ := decodeWith_eq_of_isAt isAt e
      right
      refine ⟨r, c, m, journal, ⟨readsAt_call_iff.mpr ⟨rfl, .here c⟩, isAt, ?_⟩, ?_⟩
      · intro r' stop' m' isRead _
        obtain ⟨rfl, isRead⟩ := readsAt_call_iff.mp isRead
        cases isRead with
        | here => exact .inl ⟨rfl, rfl⟩
        | inside calls _ =>
            -- Nothing is read inside a marker, whatever reader it is given.
            exact absurd calls (not_calls_of_forall_eq fun _ => outcome lenient _)
      · rw [decode_eq_decodeWith, outcome, isStrict, if_pos rfl]
    · have plain : ∀ m : Marker, ¬ m.IsAt r c.unread := fun m isAt => marked ⟨m, isAt⟩
      have inside : Decides (ReadsAt (fun reader => decodeWith lenient r (reader r)) lenient e c)
          (decodeWith lenient r (decode lenient r) e c)
          (decodeWith lenient r (decode strict r) e c) := by
        refine (context_decodeWith lenient r).decides isLenient fun r' stop calls => ?_
        rw [calls.resolver_eq (H := decodeWith lenient r)]
        exact ih _ (size ▸ calls_lt calls) stop rfl
      have strictly : decodeWith lenient r (decode strict r) e c = decode strict r e c := by
        rw [decodeWith_eq_of_not_isAt plain lenient strict, ← decode_eq_decodeWith]
      rw [← decode_eq_decodeWith, strictly] at inside
      -- What is read here is this attribute, which is no marker, and what is read inside.
      refine inside.congr fun r' stop m isAt => ?_
      rw [readsAt_call_iff]
      constructor
      · rintro ⟨mid, calls, isRead⟩
        obtain rfl := calls.resolver_eq (H := decodeWith lenient r)
        exact ⟨rfl, .inside calls isRead⟩
      · rintro ⟨rfl, isRead⟩
        cases isRead with
        | here => exact absurd isAt (plain m)
        | inside calls isRead => exact ⟨_, calls, isRead⟩

end Compare

/-! ## Strict mode -/

/-- `decoder` reads its attributes as `F` does, and strict mode adds one kind of rejection to
it. An error that is `answered` at the end of a run is the answer to its last lookup; only
there a resolver can have its own say. -/
structure StrictOnlyRefusesMarkers {α : Type} (decoder : Settings → Decoder α)
    (F : AttributeReader → Decoder α) (answered : Cursor → Error → Prop) : Prop where
  context : Context F
  unfolds : ∀ settings, decoder settings = F (Attribute.decode settings)
  /-- In lenient mode no attribute is called malformed, but by a resolver. -/
  lenient_malformed : ∀ lenient : Settings, lenient.strict = false → ∀ e c name reason stop,
    decoder lenient e c = .failed (.malformedAttribute name reason) stop →
      answered stop (.malformedAttribute name reason)
  /-- Strict mode is lenient mode, or calls an attribute malformed. -/
  same_or_malformed : ∀ lenient strict : Settings, lenient.strict = false →
    strict.strict = true → ∀ e c, decoder strict e c = decoder lenient e c ∨
      ∃ name reason stop, decoder strict e c = .failed (.malformedAttribute name reason) stop
  /-- It does so if and only if the lenient run reads a marker with a payload, or is itself
  ended by a resolver that says so. -/
  malformed_iff : ∀ lenient strict : Settings, lenient.strict = false → strict.strict = true →
    ∀ e c,
      (∃ name reason stop, decoder strict e c = .failed (.malformedAttribute name reason) stop) ↔
      (∃ r stop, ReadsAt F lenient e c r stop ∧ ∃ m : Marker, m.IsAt r stop.unread) ∨
      ∃ name reason stop, decoder lenient e c = .failed (.malformedAttribute name reason) stop ∧
        answered stop (.malformedAttribute name reason)
  /-- If there is such a marker the error names the first one, and what is unread is what
  comes behind its payload. -/
  refuses_first : ∀ lenient strict : Settings, lenient.strict = false → strict.strict = true →
    ∀ e c r stop, ReadsAt F lenient e c r stop → (∃ m : Marker, m.IsAt r stop.unread) →
      ∃ r stop m journal, Marker.IsFirst (ReadsAt F lenient e c) r stop m ∧
        decoder strict e c = .failed m.refusal ⟨m.rest, journal⟩

/-- All but the first field is said by `Decides`. -/
theorem StrictOnlyRefusesMarkers.of_lenient {α : Type} {decoder : Settings → Decoder α}
    {F : AttributeReader → Decoder α} {answered : Cursor → Error → Prop}
    (hF : Context F) (unfolds : ∀ settings, decoder settings = F (Attribute.decode settings))
    (malformed : ∀ lenient : Settings, lenient.strict = false → ∀ e c name reason stop,
      decoder lenient e c = .failed (.malformedAttribute name reason) stop →
        answered stop (.malformedAttribute name reason)) :
    StrictOnlyRefusesMarkers decoder F answered := by
  -- The two modes are compared once, attribute by attribute.
  have decides : ∀ lenient strict : Settings, lenient.strict = false → strict.strict = true →
      ∀ e c, Decides (ReadsAt F lenient e c) (decoder lenient e c) (decoder strict e c) := by
    intro lenient strict isLenient isStrict e c
    rw [unfolds, unfolds]
    exact hF.decides isLenient fun r stop _ => Attribute.decides isLenient isStrict r e stop
  refine ⟨hF, unfolds, malformed, ?_, ?_, ?_⟩
  · intro lenient strict isLenient isStrict e c
    rcases decides lenient strict isLenient isStrict e c with
      ⟨-, same⟩ | ⟨_, _, m, journal, -, run⟩
    · exact .inl same
    · exact .inr ⟨_, _, _, run⟩
  · intro lenient strict isLenient isStrict e c
    rcases decides lenient strict isLenient isStrict e c with
      ⟨quiet, same⟩ | ⟨r, stop, m, journal, first, run⟩
    · -- Without a marker the two runs are one, and a malformed attribute is an answer.
      rw [same]
      constructor
      · rintro ⟨name, reason, stop, run⟩
        exact .inr ⟨name, reason, stop, run, malformed lenient isLenient _ _ _ _ _ run⟩
      · rintro (⟨r, stop, isRead, m, isAt⟩ | ⟨name, reason, stop, run, -⟩)
        · exact absurd isAt (quiet r stop m isRead)
        · exact ⟨name, reason, stop, run⟩
    · exact ⟨fun _ => .inl ⟨r, stop, first.isRead, m, first.isAt⟩, fun _ => ⟨_, _, _, run⟩⟩
  · rintro lenient strict isLenient isStrict e c r stop isRead ⟨m, isAt⟩
    exact (decides lenient strict isLenient isStrict e c).exists_isFirst isRead isAt

/-- A lenient run that accounts for itself calls nothing malformed of its own accord. -/
theorem Outcome.Accounted.answeredLast_of_malformed {α : Type} {lenient : Settings} {r : Resolver}
    {e : Ending} {c stop : Cursor} {name reason : String} {o : Outcome α}
    (isLenient : lenient.strict = false) (account : o.Accounted (Attribute.Refusal lenient) r e c)
    (run : o = .failed (.malformedAttribute name reason) stop) :
    r.AnsweredLast stop (.malformedAttribute name reason) := by
  subst run
  rcases account with answer | ⟨-, ending | refusal⟩
  · exact answer
  · exact absurd ending.symm (e.error_ne_malformedAttribute name reason)
  · exact absurd refusal (Attribute.Refusal.not_of_lenient isLenient _)

/-- What a pool has no answer for is unresolved, and nothing is wrong with the attribute. -/
theorem Pool.not_answeredLast_malformed (pool : Pool) (stop : Cursor) (name reason : String) :
    ¬ pool.resolver.AnsweredLast stop (.malformedAttribute name reason) := by
  intro answer
  obtain ⟨_, _, unresolved, -⟩ := Pool.lacks_of_complains answer.complains
  cases unresolved

/-- Strict mode only refuses markers with a payload, in attributes, lists of attributes,
method bodies and classes alike. A resolver may call an attribute malformed as well, and then
the run ends with this answer in both modes; a constant pool never does, so that in a class
there is no other reason than markers. -/
theorem strict_only_refuses_markers :
    (∀ r, StrictOnlyRefusesMarkers (fun settings => Attribute.decode settings r)
      (fun reader => reader r) r.AnsweredLast) ∧
    (∀ r, StrictOnlyRefusesMarkers (fun settings => Attribute.decodeList settings r)
      (fun reader => counted (reader r)) r.AnsweredLast) ∧
    (∀ r, StrictOnlyRefusesMarkers (fun settings => Code.decode settings r)
      (fun reader => Code.decodeWith r (reader r)) r.AnsweredLast) ∧
    StrictOnlyRefusesMarkers Class.decode Class.decodeWith (fun _ _ => False) ∧
    ∀ (pool : Pool) stop name reason,
      ¬ pool.resolver.AnsweredLast stop (.malformedAttribute name reason) := by
  -- What is left for each is where a lenient run can have the word malformed from.
  refine ⟨fun r => ?_, fun r => ?_, fun r => ?_, ?_, Pool.not_answeredLast_malformed⟩
  · refine .of_lenient (.call r) (fun _ => rfl) ?_
    intro lenient isLenient e c name reason stop run
    exact (Attribute.accounted_decode lenient r e c).answeredLast_of_malformed isLenient run
  · refine .of_lenient (Attribute.context_counted r) (fun _ => Attribute.decodeList_eq _ r) ?_
    intro lenient isLenient e c name reason stop run
    rw [Attribute.decodeList_eq] at run
    exact ((Composed.counted .nested).accounted (Attribute.accounted_decode lenient r e)
      c).answeredLast_of_malformed isLenient run
  · refine .of_lenient (Code.context_decodeWith r) (fun _ => Code.decode_eq _ r) ?_
    intro lenient isLenient e c name reason stop run
    rw [Code.decode_eq] at run
    exact (Code.composed_decodeWith.accounted (Attribute.accounted_decode lenient r e)
      c).answeredLast_of_malformed isLenient run
  · refine .of_lenient Class.context_decodeWith Class.decode_eq ?_
    intro lenient isLenient e c name reason stop run
    exact Class.Cause.not_malformed_of_lenient isLenient name reason
      ((Class.raises_decode lenient).of_malformed run)

/-- A list of two attributes, and a byte behind it. The first is a marker without a payload
(name 1); the second is a method body (name 2), and holds a marker with one (name 3). -/
def Marker.nestedSample : List UInt8 :=
  [0, 2, 0, 1, 0, 0, 0, 0, 0, 2, 0, 0, 0, 19, 0, 0, 0, 0, 0, 0, 0, 0, 0, 0, 0, 1,
    0, 3, 0, 0, 0, 1, 7, 9]

/-- The names of the attributes in the sample. -/
def Marker.sampleNames : Resolver := fun _ index =>
  .ok (if index = 1 then "Deprecated" else if index = 2 then "Code" else "Synthetic")

/-- The list is refused in strict mode, for the marker in the method body. -/
theorem nestedSample_only_refuses_markers :
    (∃ stop, Attribute.decodeList { strict := true } Marker.sampleNames .endOfFile
        (Cursor.start Marker.nestedSample) =
      .failed (.malformedAttribute "Synthetic" "expected length 0, found 1") stop ∧
      stop.unread = [9]) ∧
    ∃ r stop, ReadsAt (fun reader => counted (reader Marker.sampleNames)) {} .endOfFile
        (Cursor.start Marker.nestedSample) r stop ∧
      ∃ m : Marker, m.IsAt r stop.unread := by
  have lists := strict_only_refuses_markers.2.1 Marker.sampleNames
  have refused : ∃ stop, Attribute.decodeList { strict := true } Marker.sampleNames .endOfFile
      (Cursor.start Marker.nestedSample) =
      .failed (.malformedAttribute "Synthetic" "expected length 0, found 1") stop ∧
      stop.unread = [9] := ⟨_, rfl, rfl⟩
  refine ⟨refused, ?_⟩
  obtain ⟨stop, run, -⟩ := refused
  have found := (lists.malformed_iff {} { strict := true } rfl rfl _ _).mp ⟨_, _, stop, run⟩
  rcases found with marker | ⟨_, _, _, -, _, _, _, -, answer⟩
  · exact marker
  · cases answer

/-- A resolver that calls every attribute malformed. -/
def Marker.scoldingNames : Resolver := fun _ _ => .error (.malformedAttribute "Code" "no name")

/-- With this resolver an attribute is malformed in lenient mode too, and no marker is read. -/
theorem scoldingNames_malformed_without_marker :
    (Attribute.decode {} Marker.scoldingNames).verdict [0, 1]
      = .error (.malformedAttribute "Code" "no name") ∧
    (Attribute.decode { strict := true } Marker.scoldingNames).verdict [0, 1]
      = .error (.malformedAttribute "Code" "no name") ∧
    ¬ ∃ r stop, ReadsAt (fun reader => reader Marker.scoldingNames) {} .endOfFile
        (Cursor.start [0, 1]) r stop ∧ ∃ m : Marker, m.IsAt r stop.unread := by
  refine ⟨rfl, rfl, ?_⟩
  rintro ⟨r, stop, isRead, m, index, payload, answer, -⟩
  obtain ⟨rfl, -⟩ := readsAt_call_iff.mp isRead
  cases answer

end ClassOutline
