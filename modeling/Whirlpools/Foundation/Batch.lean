import Mathlib.Data.List.Nodup
import Mathlib.Logic.Function.Basic
import Whirlpools.Foundation.Loop

/-! # Questions answered in batches

In a round every item may change its cell of a table and ask a question. The questions of a round
are answered together, and each answer is noted in the cell of the item that asked. Where all items
have cells of their own, rounds do with each cell what they do with it alone.
-/

namespace Batch

open Outcome

section Fold

variable {ε α σ τ : Type}

/-- A fallible fold follows another one, if each of its steps does. -/
theorem foldlM_follows {f : σ → α → Except ε σ} {g : τ → α → Except ε τ} (related : σ → τ → Prop)
    {items : List α}
    (each : ∀ state other item next, item ∈ items → related state other → g other item = .ok next →
      ∃ next', f state item = .ok next' ∧ related next' next)
    {state : σ} {other final : τ} (initially : related state other)
    (returned : items.foldlM g other = .ok final) :
    ∃ final', items.foldlM f state = .ok final' ∧ related final' final := by
  induction items generalizing state other with
  | nil =>
      obtain rfl := Except.ok.inj returned
      exact ⟨state, rfl, initially⟩
  | cons item items ih =>
      rw [List.foldlM_cons, bind_eq_ok] at returned
      obtain ⟨next, stepped, returned⟩ := returned
      obtain ⟨next', stepped', related'⟩ := each state other item next List.mem_cons_self initially
        stepped
      rw [List.foldlM_cons, stepped', ok_bind]
      exact ih (fun state other item next member => each state other item next
        (List.mem_cons_of_mem _ member)) related' returned

end Fold

/-- How an item takes part in a round: it asks, and notes the answer. -/
structure Round (ι σ ρ α ε : Type) where
  ask : ι → σ → Except ε (σ × Option ρ)
  answer : ρ → Except ε α
  note : ι → σ → α → σ

variable {ι κ σ ρ α ε : Type} [DecidableEq κ]

namespace Round

variable (round : Round ι σ ρ α ε) (key : ι → κ)

/-- What a round does with a cell alone. -/
def alone (item : ι) (cell : σ) : Except ε σ :=
  round.ask item cell >>= fun asked =>
  match asked.2 with
  | none => .ok asked.1
  | some request => round.answer request >>= fun answer => .ok (round.note item asked.1 answer)

/-- Let the next item ask. -/
def gather (state : (κ → σ) × List (ι × ρ)) (item : ι) : Except ε ((κ → σ) × List (ι × ρ)) :=
  round.ask item (state.1 (key item)) >>= fun asked =>
  .ok (Function.update state.1 (key item) asked.1,
    state.2 ++ (asked.2.map (Prod.mk item)).toList)

/-- Note an answer in the cell of its item. -/
def write (cells : κ → σ) (answered : ι × α) : κ → σ :=
  Function.update cells (key answered.1)
    (round.note answered.1 (cells (key answered.1)) answered.2)

/-- A round: all items ask, all questions are answered, all answers are noted. -/
def run (items : List ι) (cells : κ → σ) : Except ε (κ → σ) :=
  items.foldlM (round.gather key) (cells, []) >>= fun asked =>
  asked.2.mapM (fun request => round.answer request.2) >>= fun answers =>
  .ok (((asked.2.map Prod.fst).zip answers).foldl (round.write key) asked.1)

section Rounds

variable {round : Round ι σ ρ α ε} {key : ι → κ}

/-- What is noted in a cell depends on that cell only. -/
theorem write_congr (answered : List (ι × α)) {cells others : κ → σ} {place : κ}
    (same : cells place = others place) :
    answered.foldl (round.write key) cells place = answered.foldl (round.write key)
    others place := by
  induction answered generalizing cells others with
  | nil => exact same
  | cons first rest ih =>
      refine ih ?_
      unfold write
      by_cases here : place = key first.1
      · rw [here, Function.update_self, Function.update_self, ← here, same]
      · rw [Function.update_of_ne here, Function.update_of_ne here, same]

/-- Cells of other items are left as they are. -/
theorem write_other {answered : List (ι × α)} {cells : κ → σ} {place : κ}
    (other : ∀ entry ∈ answered, key entry.1 ≠ place) :
    answered.foldl (round.write key) cells place = cells place := by
  induction answered generalizing cells with
  | nil => rfl
  | cons first rest ih =>
      rw [List.foldl_cons, ih fun entry member => other entry (List.mem_cons_of_mem _ member)]
      exact Function.update_of_ne (other first List.mem_cons_self).symm _ _

/-- Where every item succeeds alone, all questions are asked and answered, and what is noted in the
cells is what the items would do alone. -/
theorem gather_answered {items : List ι} (distinct : (items.map key).Nodup) {next : ι → σ}
    {cells : κ → σ} (earlier : List (ι × ρ))
    (each : ∀ item ∈ items, round.alone item (cells (key item)) = .ok (next item)) :
    ∃ cells' requests answers, items.foldlM (round.gather key) (cells, earlier) =
        .ok (cells', earlier ++ requests) ∧
      requests.mapM (fun request => round.answer request.2) = .ok answers ∧
      (∀ request ∈ requests, request.1 ∈ items) ∧
      (∀ other, other ∉ items.map key → cells' other = cells other) ∧
      ∀ item ∈ items, ((requests.map Prod.fst).zip answers).foldl (round.write key) cells'
        (key item) = next item := by
  induction items generalizing cells earlier with
  | nil => exact ⟨cells, [], [], by rw [List.append_nil]; rfl, rfl,
      fun _ absent => absurd absent List.not_mem_nil, fun _ _ => rfl,
      fun _ absent => absurd absent List.not_mem_nil⟩
  | cons item items ih =>
      rw [List.map_cons, List.nodup_cons] at distinct
      obtain ⟨asked, asks, noted⟩ := bind_eq_ok.mp (each item List.mem_cons_self)
      obtain ⟨cells', requests, answers, gathered, answered, asking, kept, written⟩ :=
        @ih distinct.2 (Function.update cells (key item) asked.1)
          (earlier ++ (asked.2.map (Prod.mk item)).toList) fun other member => by
            have apart : key other ≠ key item := fun same =>
              distinct.1 (same ▸ List.mem_map_of_mem member)
            rw [Function.update_of_ne apart]
            exact each other (List.mem_cons_of_mem _ member)
      have here : cells' (key item) = asked.1 :=
        (kept _ distinct.1).trans (Function.update_self _ _ _)
      have others (entry : ι × α) (member : entry ∈ (requests.map Prod.fst).zip answers) :
          key entry.1 ≠ key item := by
        obtain ⟨request, asked, same⟩ := List.mem_map.mp (List.of_mem_zip member).1
        exact fun equal => distinct.1 (equal ▸ List.mem_map_of_mem (same ▸ asking request asked))
      have step : (item :: items).foldlM (round.gather key) (cells, earlier) =
          .ok (cells', earlier ++ ((asked.2.map (Prod.mk item)).toList ++ requests)) := by
        rw [List.foldlM_cons, gather, asks, ok_bind, ok_bind, gathered, List.append_assoc]
      have unchanged (other : κ) (absent : other ∉ (item :: items).map key) :
          cells' other = cells other := by
        rw [List.map_cons, List.mem_cons, not_or] at absent
        exact (kept other absent.2).trans (Function.update_of_ne absent.1 _ _)
      cases question : asked.2 with
      | none =>
          simp only [question, Except.ok.injEq] at noted
          refine ⟨cells', requests, answers, step.trans ?_, answered, fun request member =>
            List.mem_cons_of_mem _ (asking request member), unchanged, ?_⟩
          · rw [question]
            rfl
          · rintro other (_ | ⟨_, member⟩)
            · rw [write_other others, here, noted]
            · exact written other member
      | some request =>
          simp only [question, bind_eq_ok, Except.ok.injEq] at noted
          obtain ⟨answer, given, noted⟩ := noted
          refine ⟨cells', (item, request) :: requests, answer :: answers, step.trans ?_, ?_, ?_,
            unchanged, ?_⟩
          · rw [question]
            rfl
          · rw [List.mapM_cons, given, ok_bind, answered]
            rfl
          · rintro entry (_ | ⟨_, member⟩)
            · exact List.mem_cons_self
            · exact List.mem_cons_of_mem _ (asking entry member)
          · rintro other (_ | ⟨_, member⟩)
            · change ((requests.map Prod.fst).zip answers).foldl (round.write key)
                (round.write key cells' (item, answer)) (key item) = next item
              rw [write_other others, write, Function.update_self, here, noted]
            · have apart : key other ≠ key item := fun same =>
                distinct.1 (same ▸ List.mem_map_of_mem member)
              have same : round.write key cells' (item, answer) (key other) = cells' (key other) :=
                Function.update_of_ne apart _ _
              exact (write_congr ((requests.map Prod.fst).zip answers) same).trans
                (written other member)

/-- A round of items that all succeed alone. -/
theorem run_alone {items : List ι} (distinct : (items.map key).Nodup) {next : ι → σ} {cells : κ → σ}
    (each : ∀ item ∈ items, round.alone item (cells (key item)) = .ok (next item)) :
    ∃ cells', round.run key items cells = .ok cells' ∧
      (∀ item ∈ items, cells' (key item) = next item) ∧
      ∀ other, other ∉ items.map key → cells' other = cells other := by
  obtain ⟨asked, requests, answers, gathered, answered, asking, kept, written⟩ :=
    gather_answered distinct [] each
  refine ⟨((requests.map Prod.fst).zip answers).foldl (round.write key) asked, ?_, written,
    fun other absent => ?_⟩
  · rw [run, gathered, ok_bind, List.nil_append, answered, ok_bind]
  · refine (write_other fun entry member => ?_).trans (kept other absent)
    obtain ⟨request, sent, same⟩ := List.mem_map.mp (List.of_mem_zip member).1
    exact fun equal => absent (equal ▸ List.mem_map_of_mem (same ▸ asking request sent))

/-- A list of rounds does with every cell what the rounds would do with it alone. -/
theorem rounds_alone {β : Type} {rounds : β → Round ι σ ρ α ε} {key : ι → κ} {items : List ι}
    (distinct : (items.map key).Nodup) {order : List β} {final : ι → σ} {cells : κ → σ}
    (each : ∀ item ∈ items, order.foldlM (fun cell round => (rounds round).alone item cell)
      (cells (key item)) = .ok (final item)) :
    ∃ cells', order.foldlM (fun cells round => (rounds round).run key items cells) cells =
        .ok cells' ∧
      (∀ item ∈ items, cells' (key item) = final item) ∧
      ∀ other, other ∉ items.map key → cells' other = cells other := by
  induction order generalizing cells with
  | nil => exact ⟨cells, rfl, fun item member => Except.ok.inj (each item member), fun _ _ => rfl⟩
  | cons first order ih =>
      let next (item : ι) : σ :=
        ((rounds first).alone item (cells (key item))).toOption.getD (final item)
      have steps (item : ι) (member : item ∈ items) :
          (rounds first).alone item (cells (key item)) = .ok (next item) ∧
            order.foldlM (fun cell round => (rounds round).alone item cell) (next item) =
              .ok (final item) := by
        obtain ⟨value, stepped, rest⟩ :=
          bind_eq_ok.mp ((List.foldlM_cons ..).symm.trans (each item member))
        have same : next item = value := by
          change ((rounds first).alone item (cells (key item))).toOption.getD _ = value
          rw [stepped]
          rfl
        rw [same]
        exact ⟨stepped, rest⟩
      obtain ⟨middle, ran, nexts, kept⟩ := run_alone distinct fun item member =>
        (steps item member).1
      obtain ⟨cells', rans, finals, kept'⟩ := @ih middle fun item member => by
        rw [nexts item member]
        exact (steps item member).2
      refine ⟨cells', ?_, finals, fun other absent => (kept' other absent).trans
        (kept other absent)⟩
      rw [List.foldlM_cons, ran, ok_bind, rans]

end Rounds
end Round
end Batch
