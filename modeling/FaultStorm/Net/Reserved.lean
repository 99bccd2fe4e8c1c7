import FaultStorm.Net.Iptables

/-!
# Reserved chain names

A program that keeps to chains of its own. `Within mine` says of a command that it touches
chains with reserved names and jumps to them only, `SameOutside mine` of two tables that they
agree in everything else: whichever of such commands fail, what lies outside stays.
-/

namespace Iptables

open Python

/-- The rule jumps to no reserved chain. -/
def Rule.foreign (mine : String → Prop) [DecidablePred mine] (r : Rule) : Bool :=
  match r.target with
  | .drop => true
  | .jump name => ! decide (mine name)

/-- The command touches reserved chains and the jumps to them only. -/
def Command.Within (mine : String → Prop) : Command → Prop
  | .newChain name => mine name
  | .append (.user name) _ => mine name
  | .append (.builtin _) rule => ∃ name, mine name ∧ rule = link name
  | .delete (.user name) _ => mine name
  | .delete (.builtin _) rule => ∃ name, mine name ∧ rule = link name
  | .flush (.user name) => mine name
  | .flush (.builtin _) => False
  | .deleteChain name => mine name

/-- The tables agree in the chains that are not reserved and, in the builtin chains, in the rules
that do not jump to a reserved one. -/
structure Tables.SameOutside (mine : String → Prop) [DecidablePred mine] (T T' : Tables) : Prop where
  rules : ∀ hook, (T'.builtin hook).filter (Rule.foreign mine) = (T.builtin hook).filter (Rule.foreign mine)
  chains : ∀ name, ¬ mine name → T'.user.get? name = T.user.get? name

section SameOutside

variable {mine : String → Prop} [DecidablePred mine] {T T' T'' : Tables}

open Tables

theorem foreign_link {name : String} (reserved : mine name) : (link name).foreign mine = false := by
  simp [Rule.foreign, link, reserved]

theorem Tables.SameOutside.refl (T : Tables) : SameOutside mine T T := ⟨fun _ => rfl, fun _ _ => rfl⟩

theorem Tables.SameOutside.trans (h : SameOutside mine T T') (h' : SameOutside mine T' T'') : SameOutside mine T T'' :=
  ⟨fun hook => (h'.rules hook).trans (h.rules hook), fun name outside =>
    (h'.chains name outside).trans (h.chains name outside)⟩

/-- A reserved chain may hold anything. -/
theorem sameOutside_user {name : String} (reserved : mine name) (rules : List Rule) :
    SameOutside mine T (T.setRules (.user name) rules) := by
  refine ⟨fun hook => rfl, fun other outside => ?_⟩
  have ne : other ≠ name := fun eq => outside (eq ▸ reserved)
  show (T.user.set name rules).get? other = T.user.get? other
  rw [Dict.get?_set, if_neg ne]

/-- In a builtin chain, the rules that jump to no reserved chain count. -/
theorem sameOutside_builtin {hook : Hook} {rules : List Rule}
    (same : rules.filter (Rule.foreign mine) = (T.builtin hook).filter (Rule.foreign mine)) :
    SameOutside mine T (T.setRules (.builtin hook) rules) := by
  refine ⟨fun other => ?_, fun name _ => rfl⟩
  show ((if other = hook then rules else T.builtin other).filter _) = _
  by_cases here : other = hook
  · rw [if_pos here, here, same]
  · rw [if_neg here]

/-- Erasing what a filter leaves out makes no difference to it. -/
theorem filter_erase {α : Type} [DecidableEq α] {keep : α → Bool} {a : α} (out : keep a = false) (l : List α) :
    (l.erase a).filter keep = l.filter keep := by
  have absent : a ∉ l.filter keep := by simp [out]
  rw [← List.erase_filter, List.erase_of_not_mem absent]

/-- A command on reserved chains leaves everything else as it is. -/
theorem run_sameOutside {command : Command} (within : command.Within mine) (ran : run command T = some T') :
    SameOutside mine T T' := by
  cases command with
  | newChain name =>
    rw [run] at ran
    split at ran
    · cases ran
    · cases ran
      exact sameOutside_user within []
  | append chain rule =>
    cases chain with
    | builtin hook =>
      obtain ⟨name, reserved, rfl⟩ := within
      cases ran
      apply sameOutside_builtin
      rw [List.filter_append, List.filter_cons_of_neg (by simp [foreign_link reserved]), List.filter_nil,
        List.append_nil]
    | user name =>
      obtain ⟨rules, -, rfl⟩ := Option.map_eq_some_iff.mp ran
      exact sameOutside_user within _
  | delete chain rule =>
    obtain ⟨rules, found, erased⟩ := Option.bind_eq_some_iff.mp ran
    split at erased
    · cases erased
      cases chain with
      | builtin hook =>
        obtain ⟨name, reserved, rfl⟩ := within
        cases found
        exact sameOutside_builtin (filter_erase (foreign_link reserved) _)
      | user name => exact sameOutside_user within _
    · cases erased
  | flush chain =>
    cases chain with
    | builtin hook => exact within.elim
    | user name =>
      obtain ⟨rules, -, rfl⟩ := Option.map_eq_some_iff.mp ran
      exact sameOutside_user within []
  | deleteChain name =>
    rw [run] at ran
    split at ran
    · cases ran
      refine ⟨fun _ => rfl, fun other outside => ?_⟩
      have ne : other ≠ name := fun eq => outside (eq ▸ within)
      show (T.user.erase name).get? other = T.user.get? other
      rw [Dict.get?_erase, if_neg ne]
    · cases ran

end SameOutside

end Iptables
