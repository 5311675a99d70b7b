import Escrow.Proofs.Agreement.References

/-!
# Walks

The history of an agreement is told on a walk from baton to baton
(`Ledger.Walks`), which goes to the event that takes the baton and stops where
there is none, or where the agreement ends. It misses nothing: an event that
follows one met on the way is met itself (`Walks.mem_of_nextEvent?`), and only the
last one met may be followed by none.

An event once found is found in every later ledger, so that the same walk can only
get longer there (`Grows.isPrefix_of_walks`), and not even that once the agreement
has ended (`Grows.eventsFrom?_of_ended`).
-/

namespace Escrow

namespace Ledger

variable {l m : Ledger} {id b : TxId} {o : Outpoint} {e : Event} {es es' : List Event}

/-! ## One step -/

/-- The event found to take a baton is a confirmed transaction that spends it and
    does something. -/
theorem nextEvent?_eq_some_iff :
    l.nextEvent? id = some e ↔ ∃ vin r op, l.spentBy? ⟨id, 0⟩ = some (e.txid, vin) ∧
      l.record? e.txid = some r ∧ r.height = some e.height ∧ r.tx.operation? = some op ∧
      op.function = e.function := by
  simp only [nextEvent?, spender?, Option.bind_eq_bind, Option.bind_eq_some_iff,
    Option.map_eq_some_iff]
  constructor
  · rintro ⟨s, ⟨⟨id', vin⟩, hspent, rfl⟩, height, hheight, r, hr, op, hop, he⟩
    cases he
    refine ⟨vin, r, op, hspent, hr, ?_, hop, rfl⟩
    rwa [heightOf?, hr] at hheight
  · rintro ⟨vin, r, op, hspent, hr, hheight, hop, hfun⟩
    refine ⟨_, ⟨_, hspent, rfl⟩, e.height, ?_, r, hr, op, hop, ?_⟩
    · rw [heightOf?, hr]
      exact hheight
    · rw [hfun]
      rfl

/-- A confirmed transaction that spends a baton and does something is the event found
    to take it. -/
theorem Sound.nextEvent?_of_spends (hl : l.Sound) {r : Record} (hr : r ∈ l.records) {height : Nat}
    (hheight : r.height = some height) {op : Operation} (hop : r.tx.operation? = some op)
    (hmem : ⟨b, 0⟩ ∈ r.tx.spends) : l.nextEvent? b = some ⟨r.txid, op.function, height⟩ := by
  obtain ⟨vin, hat⟩ := List.getElem?_of_mem hmem
  have hr := hl.record?_eq_some_iff.2 ⟨hr, rfl⟩
  exact nextEvent?_eq_some_iff.2 ⟨vin, r, op, hl.spentBy?_eq_some_iff.2 ⟨r, hr, hat⟩, hr, hheight,
    hop, rfl⟩

/-- What spends an output, if it is confirmed, is a confirmed record. -/
theorem Sound.confirmedSpender?_eq_some_iff (hl : l.Sound) {s : Spend} :
    l.confirmedSpender? o = some s ↔
      ∃ r, l.record? s.txid = some r ∧ r.isConfirmed ∧ r.height = s.height ∧
        r.tx.spends[s.vin]? = some o := by
  simp only [confirmedSpender?, spender?, Option.filter_eq_some_iff, Option.map_eq_some_iff,
    Prod.exists, hl.spentBy?_eq_some_iff]
  constructor
  · rintro ⟨⟨id, vin, ⟨r, hr, ho⟩, rfl⟩, hconf⟩
    have hheight : l.heightOf? id = r.height := by rw [heightOf?, hr]; rfl
    rw [hheight] at hconf
    exact ⟨r, hr, hconf, hheight.symm, ho⟩
  · rintro ⟨r, hr, hconf, hheight, ho⟩
    have hheight' : l.heightOf? s.txid = s.height := by rw [heightOf?, hr]; exact hheight
    exact ⟨⟨s.txid, s.vin, ⟨r, hr, ho⟩, by rw [hheight']⟩, hheight ▸ hconf⟩

/-- Who is not spent by anything confirmed is followed by no event. -/
theorem nextEvent?_eq_none (h : ¬(l.confirmedSpender? ⟨id, 0⟩).isSome) :
    l.nextEvent? id = none := by
  rw [confirmedSpender?, Option.isSome_filter] at h
  rw [nextEvent?]
  rcases hs : l.spender? ⟨id, 0⟩ with _ | ⟨txid, vin, height⟩
  · rfl
  · rw [hs, Option.any_some] at h
    obtain rfl := Option.not_isSome_iff_eq_none.1 h
    rfl

/-- An event once found is found again. -/
theorem Grows.nextEvent? (h : l.Grows m) (hm : m.Sound)
    (he : l.nextEvent? id = some e) : m.nextEvent? id = some e := by
  obtain ⟨vin, r, op, hspent, hr, hheight, hop, hfun⟩ := nextEvent?_eq_some_iff.1 he
  have hconf : r.isConfirmed := Option.isSome_iff_exists.2 ⟨e.height, hheight⟩
  exact nextEvent?_eq_some_iff.2 ⟨vin, r, op, h.spentBy? hm hspent,
    h.record?_of_isConfirmed hm hr hconf, hheight, hop, hfun⟩

/-! ## All of them -/

/-- The events met on the way from a baton. -/
inductive Walks (l : Ledger) : TxId → List Event → Prop
  | stop {id : TxId} : l.nextEvent? id = none → l.Walks id []
  | last {id : TxId} {e : Event} : l.nextEvent? id = some e →
    (e.function.isTerminal || e.function = .accept) → l.Walks id [e]
  | step {id : TxId} {e : Event} {es : List Event} : l.nextEvent? id = some e →
    ¬(e.function.isTerminal || e.function = .accept) → l.Walks e.txid es → l.Walks id (e :: es)

/-- What is told is a walk. -/
theorem walks_of_eventsFrom? {n : Nat} (h : l.eventsFrom? n id = some es) : l.Walks id es := by
  induction n generalizing id es with
  | zero =>
    rw [eventsFrom?] at h
    split at h
    · cases h
    · next hnone =>
      cases h
      exact .stop (nextEvent?_eq_none hnone)
  | succ n ih =>
    rw [eventsFrom?] at h
    rcases hnext : l.nextEvent? id with _ | e
    · rw [hnext] at h
      cases h
      exact .stop hnext
    · simp only [hnext] at h
      split at h
      · next hends =>
        cases h
        exact .last hnext hends
      · next hends =>
        obtain ⟨rest, hrest, rfl⟩ := Option.map_eq_some_iff.1 h
        exact .step hnext hends (ih hrest)

/-- The events of an agreement are told if it is found and the walk from it does not go too
    far. -/
theorem events_eq_ok_iff {max : Nat} {agreement : TxId} :
    l.events max agreement = .ok es ↔
      (∃ a, l.findAgreement agreement = .ok a) ∧ l.eventsFrom? max agreement = some es := by
  rw [events]
  rcases l.findAgreement agreement with error | a
  · simp
  · rcases l.eventsFrom? max agreement with _ | es' <;> simp

/-- The latest event is the last one told, and otherwise the accept. -/
theorem latestEvent_eq_ok_iff {max : Nat} {agreement : TxId} {latest : LatestEvent} :
    l.latestEvent max agreement = .ok latest ↔ ∃ es, l.events max agreement = .ok es ∧
      latest.txid = (es.getLast?.map Event.txid).getD agreement ∧
      latest.function = (es.getLast?.map Event.function).getD .accept := by
  rw [latestEvent, bind_eq_ok_iff]
  refine exists_congr fun es => and_congr_right fun _ => ?_
  rcases es.getLast? with _ | e
  · simp only [pure_eq_ok_iff, Option.map_none, Option.getD_none]
    constructor
    · rintro rfl
      exact ⟨rfl, rfl⟩
    · rintro ⟨rfl, hfun⟩
      rw [← hfun]
  · simp only [pure_eq_ok_iff, Option.map_some, Option.getD_some]
    constructor
    · rintro rfl
      exact ⟨rfl, rfl⟩
    · rintro ⟨hid, hfun⟩
      rw [← hid, ← hfun]

/-- The last of the events told is followed by no other, unless it ends the
    agreement. -/
theorem Walks.nextEvent?_eq_none (h : l.Walks id es)
    (hlast : ∀ e, es.getLast? = some e → ¬(e.function.isTerminal || e.function = .accept)) :
    l.nextEvent? ((es.getLast?.map Event.txid).getD id) = none := by
  induction h with
  | stop hnone => exact hnone
  | last _ hends => exact absurd hends (hlast _ rfl)
  | @step id e es _ hends _ ih =>
    rw [List.getLast?_cons] at hlast ⊢
    rcases hlast' : es.getLast? with _ | e'
    · rw [hlast'] at ih
      exact ih nofun
    · rw [hlast'] at hlast ih
      exact ih hlast

/-- What follows an event that does not end the agreement is met. -/
theorem Walks.mem_of_nextEvent? (h : l.Walks id es)
    (hb : b = id ∨ ∃ e ∈ es, e.txid = b ∧ ¬(e.function.isTerminal || e.function = .accept))
    (hnext : l.nextEvent? b = some e) : e ∈ es := by
  -- The next event of what is met on the way is on the way, as the walk goes on from there.
  induction h with
  | stop hnone =>
    rcases hb with rfl | ⟨e', he', -⟩
    · cases hnone.symm.trans hnext
    · cases he'
  | last hfirst hends =>
    rcases hb with rfl | ⟨e', he', -, hends'⟩
    · cases hfirst.symm.trans hnext
      exact List.mem_singleton_self e
    · rw [List.mem_singleton.1 he'] at hends'
      exact absurd hends hends'
  | step hfirst _ _ ih =>
    rcases hb with rfl | ⟨e', he', rfl, hends'⟩
    · cases hfirst.symm.trans hnext
      exact List.mem_cons_self
    · refine List.mem_cons_of_mem _ (ih ?_)
      rcases List.mem_cons.1 he' with rfl | he'
      · exact .inl rfl
      · exact .inr ⟨e', he', rfl, hends'⟩

/-- Whoever is met, unless it is the last, is followed by an event. -/
theorem Walks.eq_last_of_nextEvent? (h : l.Walks id es) (hb : b = id ∨ ∃ e ∈ es, e.txid = b)
    (hnone : l.nextEvent? b = none) : b = (es.getLast?.map Event.txid).getD id := by
  -- A walk stops only where nothing follows.
  induction h with
  | stop =>
    rcases hb with rfl | ⟨e', he', -⟩
    · rfl
    · cases he'
  | last hfirst =>
    rcases hb with rfl | ⟨e', he', rfl⟩
    · cases hfirst.symm.trans hnone
    · rw [List.mem_singleton.1 he']
      rfl
  | @step id e es hfirst _ _ ih =>
    rcases hb with rfl | ⟨e', he', rfl⟩
    · cases hfirst.symm.trans hnone
    · rw [List.getLast?_cons]
      have hlast := ih (by
        rcases List.mem_cons.1 he' with rfl | he'
        · exact .inl rfl
        · exact .inr ⟨e', he', rfl⟩)
      rw [hlast]
      rcases es.getLast? with _ | e'' <;> rfl

/-! ## In a later ledger -/

/-- A later walk meets the same events first. -/
theorem Grows.isPrefix_of_walks (h : l.Grows m) (hm : m.Sound) (hes : l.Walks id es)
    (hes' : m.Walks id es') : es <+: es' := by
  -- Each step is one in the later ledger, where the walk may go on behind the last one.
  induction hes generalizing es' with
  | stop => exact List.nil_prefix
  | last hfirst hends =>
    rcases hes' with hnone | ⟨hfirst', -⟩ | ⟨hfirst', hends', -⟩
    · cases (h.nextEvent? hm hfirst).symm.trans hnone
    · cases (h.nextEvent? hm hfirst).symm.trans hfirst'
      exact List.prefix_rfl
    · cases (h.nextEvent? hm hfirst).symm.trans hfirst'
      exact absurd hends hends'
  | step hfirst hends _ ih =>
    rcases hes' with hnone | ⟨hfirst', hends'⟩ | ⟨hfirst', -, hrest⟩
    · cases (h.nextEvent? hm hfirst).symm.trans hnone
    · cases (h.nextEvent? hm hfirst).symm.trans hfirst'
      exact absurd hends' hends
    · cases (h.nextEvent? hm hfirst).symm.trans hfirst'
      exact (List.prefix_cons_inj _).2 (ih hrest)

/-- Once the agreement has ended, the same events are told. -/
theorem Grows.eventsFrom?_of_ended (h : l.Grows m) (hm : m.Sound) {n : Nat}
    (hes : l.eventsFrom? n id = some es) (hlast : es.getLast? = some e)
    (hends : e.function.isTerminal || e.function = .accept) : m.eventsFrom? n id = some es := by
  -- The walk takes the same steps, and ends with the same event.
  induction n generalizing id es with
  | zero =>
    rw [eventsFrom?] at hes
    split at hes
    · cases hes
    · cases hes
      cases hlast
  | succ n ih =>
    rw [eventsFrom?] at hes ⊢
    rcases hnext : l.nextEvent? id with _ | e'
    · rw [hnext] at hes
      cases hes
      cases hlast
    · rw [h.nextEvent? hm hnext]
      simp only [hnext] at hes ⊢
      split at hes
      · next hends' => rwa [if_pos hends']
      · next hends' =>
        obtain ⟨rest, hrest, rfl⟩ := Option.map_eq_some_iff.1 hes
        rw [if_neg hends']
        rw [List.getLast?_cons] at hlast
        rcases hlast' : rest.getLast? with _ | e''
        · rw [hlast'] at hlast
          cases hlast
          exact absurd hends hends'
        · rw [hlast'] at hlast
          cases hlast
          rw [ih hrest hlast']
          rfl

end Ledger

end Escrow
