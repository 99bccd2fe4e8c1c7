import FaultStorm.Faults.Overlap

/-!
# The docker calls of a partition

`execute()` of a partition is a sequence of lookups, chains to be created and rules to be added,
any of whose docker calls may fail. A chain that was created but not linked is what a heal cannot
take down again.
-/

namespace FaultStorm

open Python Iptables Cluster

/-- A lookup, or the commands tried in one `try`. -/
inductive ChainCall
  /-- `get_node_ip` -/
  | lookup (name : String)
  /-- `create_chain`, `create_chain_for_direction` -/
  | create (chain : Removal)
  /-- one turn of `add_drop_rules_by_src`, `add_drop_rules_by_dest` -/
  | rule (node chain : String) (r : Rule)

def ChainCall.run : ChainCall → ClusterM Unit
  | .lookup name => do
    let _ ← ClusterManager.getNodeIp name
  | .create r => tryCommands r.node [.newChain r.chain, .append (.builtin r.hook) (link r.chain)]
  | .rule node chain r => tryCommands node [.append (.user chain) r]

/-- No chain is created whose link then fails: `made` are the chains that are there, and `outage`
says which docker calls fail, as long as all lookups succeed. -/
def LinksThrough (ip : String → Option String) : List Removal → (Nat → Option PyExc) → List ChainCall → Prop
  | _, _, [] => True
  | made, outage, .lookup name :: calls =>
    outage 0 = none → (ip name).isSome → LinksThrough ip made (fun k => outage (k + 1)) calls
  | made, outage, .rule _ _ _ :: calls => LinksThrough ip made (fun k => outage (k + 1)) calls
  | made, outage, .create r :: calls =>
    if outage 0 = none ∧ ∀ x ∈ made, ¬ (x.node = r.node ∧ x.chain = r.chain) then
      outage 1 = none ∧ LinksThrough ip (made ++ [r]) (fun k => outage (k + 2)) calls
    else LinksThrough ip made (fun k => outage (k + 1)) calls

/-! ## Tried commands -/

section Try

variable {c : Cluster} {name : String} {command : Command} {rest : List Command}

/-- A command that does not reach its node, or fails there, ends the `try`. -/
theorem exec_tryCommands_fails (fails : c.outage 0 ≠ none ∨ run command (c.node name).tables = none) :
    (tryCommands name (command :: rest)).exec c = (.ok (), c.after 1) := by
  have failed : ∃ exc, (ClusterManager.execOnNode name (.iptables command)).exec c = (.error exc, c.after 1) := by
    rw [exec_execOnNode_eq]
    cases outage : c.outage 0 with
    | some exc => exact ⟨exc, rfl⟩
    | none =>
      have refused := fails.resolve_left (fun reached => reached outage)
      simp only [Node.run, refused, Option.map_none]
      exact ⟨_, rfl⟩
  obtain ⟨exc, failed⟩ := failed
  rw [tryCommands, Proc.exec_swallow, Proc.forEach_cons, Proc.exec_bind_error failed]

theorem exec_tryCommands_ok (reached : c.outage 0 = none) {T : Tables} (ran : run command (c.node name).tables = some T) :
    (tryCommands name (command :: rest)).exec c = (tryCommands name rest).exec ((c.after 1).onTables name fun _ => T) := by
  have done : (ClusterManager.execOnNode name (.iptables command)).exec c =
      (.ok (), (c.after 1).onTables name fun _ => T) := by
    rw [exec_execOnNode_eq, reached]
    simp only [Node.run, ran, Option.map_some]
    rfl
  rw [tryCommands, Proc.exec_swallow, Proc.forEach_cons, Proc.exec_bind_ok done, tryCommands, Proc.exec_swallow]

/-- One command that is tried. -/
theorem exec_tryOne (name : String) (command : Command) (c : Cluster) :
    (tryCommands name [command]).exec c = (.ok (), if (c.outage 0).isNone
      then (c.after 1).onTables name (runAll [command]) else c.after 1) := by
  cases outage : c.outage 0 with
  | some exc =>
    rw [exec_tryCommands_fails (Or.inl (by rw [outage]; nofun))]
    rfl
  | none =>
    have same : ∀ {T}, runAll [command] (c.node name).tables = T →
        (c.after 1).onTables name (runAll [command]) = (c.after 1).onTables name fun _ => T := by
      rintro T rfl
      rfl
    cases ran : run command (c.node name).tables with
    | none =>
      rw [exec_tryCommands_fails (Or.inr ran), same (runAll_cons_none ran)]
      exact congrArg (Prod.mk _) (onTables_id (c.after 1) name).symm
    | some T =>
      rw [exec_tryCommands_ok outage ran, same (runAll_cons_some ran)]
      rfl

end Try

/-! ## What the calls leave -/

/-- The filter tables are the starting ones with these chains on top, all of them linked. -/
def Linked (start c : Cluster) (made : List Removal) : Prop :=
  ∀ name, ∃ l, Over (start.node name).tables l (c.node name).tables ∧
    l.map (fun i => (i.chain, i.hook)) = (made.filter (·.node = name)).map fun r => (r.chain, r.hook)

/-- A node has this chain, and no link to it. -/
def Half (r : Removal) (c : Cluster) : Prop := Unlinked r.chain (c.node r.node).tables

section Calls

variable {start c : Cluster} {made : List Removal} {r : Removal}

theorem linked_nil (start : Cluster) : Linked start start [] := fun _ => ⟨[], Over.base _, rfl⟩

theorem Linked.congr {d : Cluster} (h : Linked start c made) (same : d.node = c.node) : Linked start d made := by
  unfold Linked
  rw [same]
  exact h

/-- The chains of a node, by name. -/
theorem mem_chains {l : List Install} {name : String}
    (outline : l.map (fun i => (i.chain, i.hook)) = (made.filter (·.node = name)).map fun r => (r.chain, r.hook))
    {chain : String} : chain ∈ l.map (·.chain) ↔ ∃ x ∈ made, x.node = name ∧ x.chain = chain := by
  have chains := congrArg (List.map Prod.fst) outline
  rw [List.map_map, List.map_map] at chains
  have names : l.map (·.chain) = (made.filter (·.node = name)).map (·.chain) := chains
  rw [names]
  simp [and_assoc]

/-- A change of the tables of one node. -/
theorem Linked.onTables (h : Linked start c made) {name : String} {f : Tables → Tables} {made' : List Removal}
    (others : ∀ other, other ≠ name → made'.filter (·.node = other) = made.filter (·.node = other))
    (here : ∀ l, Over (start.node name).tables l (c.node name).tables →
      l.map (fun i => (i.chain, i.hook)) = (made.filter (·.node = name)).map (fun r => (r.chain, r.hook)) →
      ∃ l', Over (start.node name).tables l' (f (c.node name).tables) ∧
        l'.map (fun i => (i.chain, i.hook)) = (made'.filter (·.node = name)).map fun r => (r.chain, r.hook)) :
    Linked start (c.onTables name f) made' := by
  intro other
  obtain ⟨l, stacked, outline⟩ := h other
  rw [node_onTables]
  by_cases eq : other = name
  · subst eq
    rw [if_pos rfl]
    exact here l stacked outline
  · rw [if_neg eq, others other eq]
    exact ⟨l, stacked, outline⟩

theorem Linked.create (h : Linked start c made) (free : (start.node r.node).tables.Free r.chain)
    (fresh : ∀ x ∈ made, ¬ (x.node = r.node ∧ x.chain = r.chain)) :
    Linked start (c.onTables r.node (runAll (createCommands ⟨r.chain, r.hook, []⟩))) (made ++ [r]) := by
  apply h.onTables
  · intro other ne
    rw [List.filter_append]
    simp [ne.symm]
  · intro l stacked outline
    have outside : r.chain ∉ l.map (·.chain) := by
      rw [mem_chains outline]
      rintro ⟨x, member, same⟩
      exact fresh x member same
    refine ⟨_, stacked.create r.hook free outside, ?_⟩
    rw [List.map_append, outline, List.filter_append, List.map_append]
    simp

theorem Linked.rule (h : Linked start c made) (node chain : String) {rule : Rule} (drop : rule.target = .drop)
    (free : (start.node node).tables.Free chain) :
    Linked start (c.onTables node (runAll [.append (.user chain) rule])) made := by
  apply h.onTables
  · exact fun _ _ => rfl
  · intro l stacked outline
    by_cases known : chain ∈ l.map (·.chain)
    · obtain ⟨l', stacked', same⟩ := stacked.fill known drop
      exact ⟨l', stacked', same.trans outline⟩
    · have refused : run (.append (.user chain) rule) (c.node node).tables = none := by
        simp [run, Tables.rules, stacked.absent free known]
      rw [runAll_cons_none refused]
      exact ⟨l, stacked, outline⟩

/-- Taking down a chain, at the hook it is linked to. -/
theorem Linked.remove (h : Linked start c made) (free : (start.node r.node).tables.Free r.chain)
    (at_hook : ∀ x ∈ made, x.node = r.node → x.chain = r.chain → x.hook = r.hook) :
    Linked start (c.onTables r.node (runAll (removeCommands r.chain r.hook)))
      (made.filter fun x => ¬ (x.node = r.node ∧ x.chain = r.chain)) := by
  apply h.onTables
  · intro other ne
    rw [List.filter_filter]
    refine List.filter_congr fun x _ => ?_
    by_cases here : x.node = other
    · simp [here, ne]
    · simp [here]
  · intro l stacked outline
    have hooks : ∀ i ∈ l, i.chain = r.chain → i.hook = r.hook := by
      intro i member chain
      have pair : (i.chain, i.hook) ∈ l.map fun i => (i.chain, i.hook) := List.mem_map_of_mem member
      rw [outline] at pair
      obtain ⟨x, among, same⟩ := List.mem_map.mp pair
      obtain ⟨inside, node⟩ := List.mem_filter.mp among
      obtain ⟨chain', hook'⟩ := Prod.mk.inj same
      rw [← hook']
      exact at_hook x inside (of_decide_eq_true node) (chain'.trans chain)
    refine ⟨_, stacked.removeAny free hooks, ?_⟩
    have pairs : ∀ {α : Type} (f : α → String × Hook) (k : List α),
        (k.filter fun a => (f a).1 ≠ r.chain).map f = (k.map f).filter fun x => x.1 ≠ r.chain := by
      intro α f k
      rw [List.filter_map]
      rfl
    have left := pairs (fun i : Install => (i.chain, i.hook)) l
    have right := pairs (fun x : Removal => (x.chain, x.hook)) (made.filter (·.node = r.node))
    refine left.trans ?_
    rw [outline, ← right, List.filter_filter, List.filter_filter]
    refine congrArg _ (List.filter_congr fun x _ => ?_)
    by_cases here : x.node = r.node <;> simp [here]

/-- What one call that does not leave a chain unlinked does. -/
theorem exec_create (h : Linked start c made) (free : (start.node r.node).tables.Free r.chain) :
    if c.outage 0 = none ∧ ∀ x ∈ made, ¬ (x.node = r.node ∧ x.chain = r.chain) then
      if c.outage 1 = none then
        (ChainCall.create r).run.exec c =
          (.ok (), (c.after 2).onTables r.node (runAll (createCommands ⟨r.chain, r.hook, []⟩)))
      else ∃ c', (ChainCall.create r).run.exec c = (.ok (), c') ∧ Half r c'
    else (ChainCall.create r).run.exec c = (.ok (), c.after 1) := by
  obtain ⟨l, stacked, outline⟩ := h r.node
  have absent_iff : (c.node r.node).tables.user.get? r.chain = none ↔
      ∀ x ∈ made, ¬ (x.node = r.node ∧ x.chain = r.chain) := by
    constructor
    · intro none x member same
      obtain ⟨i, among, chain⟩ := List.mem_map.mp ((mem_chains outline).mpr ⟨x, member, same⟩)
      have installed := stacked.installed i among
      rw [show i.chain = r.chain from chain, none] at installed
      cases installed
    · intro fresh
      refine stacked.absent free fun known => ?_
      obtain ⟨x, member, same⟩ := (mem_chains outline).mp known
      exact fresh x member same
  split
  · rename_i creates
    obtain ⟨reached, fresh⟩ := creates
    have absent := absent_iff.mpr fresh
    have created : run (.newChain r.chain) (c.node r.node).tables =
        some ((c.node r.node).tables.setRules (.user r.chain) []) := by
      simp [run, absent]
    have second := exec_tryOne r.node (.append (.builtin r.hook) (link r.chain))
      ((c.after 1).onTables r.node fun _ => (c.node r.node).tables.setRules (.user r.chain) [])
    have outage : (((c.after 1).onTables r.node fun _ =>
        (c.node r.node).tables.setRules (.user r.chain) []).outage 0) = c.outage 1 := rfl
    rw [ChainCall.run, exec_tryCommands_ok reached created, second, outage]
    split
    · rename_i linked
      rw [linked, if_pos Option.isNone_none]
      refine congrArg (Prod.mk _) ?_
      rw [after_onTables, after_after, onTables_onTables]
      exact onTables_congr (runAll_cons_some created).symm
    · rename_i unlinked
      have failed : ¬ (c.outage 1).isNone = true := fun none => unlinked (Option.isNone_iff_eq_none.mp none)
      rw [if_neg failed]
      refine ⟨_, rfl, ?_⟩
      show Unlinked r.chain ((((c.after 1).onTables r.node fun _ =>
        (c.node r.node).tables.setRules (.user r.chain) []).node r.node).tables)
      rw [node_onTables, if_pos rfl]
      refine ⟨?_, fun hook member => ?_⟩
      · show (((c.node r.node).tables.user.set r.chain []).get? r.chain).isSome
        rw [Dict.get?_set_self]
        rfl
      · have linked : link r.chain ∈ (c.node r.node).tables.builtin hook := member
        rw [stacked.builtin hook] at linked
        rcases List.mem_append.mp linked with base | own
        · exact free.2 (Or.inl ⟨hook, _, base, rfl⟩)
        · obtain ⟨i, among, same⟩ := List.mem_map.mp own
          have chain : i.chain = r.chain := by simpa [link] using same
          have installed := stacked.installed i (List.mem_filter.mp among).1
          rw [chain, absent] at installed
          cases installed
  · rename_i not_created
    by_cases reached : c.outage 0 = none
    · have taken : (c.node r.node).tables.user.get? r.chain ≠ none := fun absent =>
        not_created ⟨reached, absent_iff.mp absent⟩
      have refused : run (.newChain r.chain) (c.node r.node).tables = none := by
        simp [run, Option.isSome_iff_ne_none.mpr taken]
      exact exec_tryCommands_fails (Or.inr refused)
    · exact exec_tryCommands_fails (Or.inl reached)

/-- A command on one node changes the tables of that node only. -/
theorem Half.onTables (h : Half r c) {name : String} {f : Tables → Tables}
    (keeps : ∀ T, Unlinked r.chain T → Unlinked r.chain (f T)) : Half r (c.onTables name f) := by
  unfold Half
  rw [node_onTables]
  split
  · exact keeps _ h
  · exact h

theorem exec_lookup (name : String) (c : Cluster) :
    c.outage 0 = none ∧ (c.ip name).isSome ∧ (ChainCall.lookup name).run.exec c = (.ok (), c.after 1) ∨
      ¬ (c.outage 0 = none ∧ (c.ip name).isSome) ∧ ∃ exc, (ChainCall.lookup name).run.exec c = (.error exc, c.after 1) := by
  rw [ChainCall.run, Proc.exec_bind, exec_getNodeIp_eq]
  cases c.outage 0 with
  | some exc => exact Or.inr ⟨fun h => absurd h.1 nofun, exc, rfl⟩
  | none =>
    cases c.ip name with
    | none => exact Or.inr ⟨fun h => absurd h.2 nofun, _, rfl⟩
    | some ip => exact Or.inl ⟨rfl, rfl, rfl⟩

/-- No later call of the partition links the chain. -/
theorem half_keeps (r : Removal) (call : ChainCall) : Proc.Keeps (Half r) call.run := by
  intro c h
  cases call with
  | lookup name =>
    rcases exec_lookup name c with ⟨-, -, ran⟩ | ⟨-, exc, ran⟩ <;> rw [ran] <;> exact h
  | create x =>
    rw [ChainCall.run]
    by_cases reached : c.outage 0 = none
    · cases ran : run (.newChain x.chain) (c.node x.node).tables with
      | none =>
        rw [exec_tryCommands_fails (Or.inr ran)]
        exact h
      | some T =>
        rw [exec_tryCommands_ok reached ran, exec_tryOne]
        have made : Half r ((c.after 1).onTables x.node fun _ => T) ∧ (x.node = r.node → x.chain ≠ r.chain) := by
          by_cases here : r.node = x.node
          · have unlinked : Unlinked r.chain (c.node x.node).tables := here ▸ h
            obtain ⟨kept, ne⟩ := unlinked.newChain ran
            refine ⟨?_, fun _ => ne⟩
            unfold Half
            rw [node_onTables, if_pos here]
            exact kept
          · refine ⟨?_, fun same => absurd same.symm here⟩
            unfold Half
            rw [node_onTables, if_neg here]
            exact h
        show Half r (if _ then _ else _)
        split
        · show Half r (Cluster.onTables (((c.after 1).onTables x.node fun _ => T).after 1) x.node _)
          unfold Half
          rw [node_onTables]
          by_cases here : r.node = x.node
          · rw [if_pos here]
            exact made.1.linkOther (made.2 here.symm) x.hook
          · rw [if_neg here]
            exact made.1
        · exact made.1
    · rw [exec_tryCommands_fails (Or.inl reached)]
      exact h
  | rule node chain rule =>
    rw [ChainCall.run, exec_tryOne]
    show Half r (if _ then _ else _)
    split
    · exact Half.onTables (c := c.after 1) h fun T unlinked => unlinked.append chain rule
    · exact h

/-- The calls are for chains that the starting tables do not have. -/
def ForFree (start : Cluster) (calls : List ChainCall) : Prop :=
  ∀ call ∈ calls, match call with
    | .lookup _ => True
    | .create r => (start.node r.node).tables.Free r.chain
    | .rule node chain rule => (start.node node).tables.Free chain ∧ rule.target = .drop

/-- The chains that the calls leave are all linked if every link goes through, and else one of them
is not. -/
theorem exec_calls {calls : List ChainCall} (h : Linked start c made) (free : ForFree start calls) :
    (LinksThrough c.ip made c.outage calls → ∃ made', Linked start ((Proc.forEach calls ChainCall.run).exec c).2 made' ∧
      ∀ r ∈ made', r ∈ made ∨ .create r ∈ calls) ∧
    (¬ LinksThrough c.ip made c.outage calls →
      ∃ r, .create r ∈ calls ∧ Half r ((Proc.forEach calls ChainCall.run).exec c).2) := by
  induction calls generalizing c made with
  | nil => exact ⟨fun _ => ⟨made, h, fun r member => Or.inl member⟩, fun broken => absurd trivial broken⟩
  | cons call calls ih =>
    have rest_free : ForFree start calls := fun other member => free other (List.mem_cons_of_mem call member)
    have here := free call List.mem_cons_self
    -- a call after which all chains are linked
    have next : ∀ {c' : Cluster} {made' : List Removal}, call.run.exec c = (.ok (), c') → Linked start c' made' →
        (∀ r ∈ made', r ∈ made ∨ .create r = call) →
        (LinksThrough c.ip made c.outage (call :: calls) ↔ LinksThrough c'.ip made' c'.outage calls) →
        (LinksThrough c.ip made c.outage (call :: calls) →
          ∃ made', Linked start ((Proc.forEach (call :: calls) ChainCall.run).exec c).2 made' ∧
            ∀ r ∈ made', r ∈ made ∨ .create r ∈ call :: calls) ∧
        (¬ LinksThrough c.ip made c.outage (call :: calls) →
          ∃ r, .create r ∈ call :: calls ∧ Half r ((Proc.forEach (call :: calls) ChainCall.run).exec c).2) := by
      intro c' made' ran linked grown same
      rw [Proc.forEach_cons, Proc.exec_bind_ok ran, same]
      obtain ⟨through, broken⟩ := ih linked rest_free
      constructor
      · intro goes
        obtain ⟨made'', linked', from_calls⟩ := through goes
        refine ⟨made'', linked', fun r member => ?_⟩
        rcases from_calls r member with before | later
        · exact (grown r before).imp_right fun eq => List.mem_cons.mpr (Or.inl eq)
        · exact Or.inr (List.mem_cons_of_mem call later)
      · intro fails
        obtain ⟨r, member, half⟩ := broken fails
        exact ⟨r, List.mem_cons_of_mem call member, half⟩
    have old : ∀ r ∈ made, r ∈ made ∨ ChainCall.create r = call := fun r member => Or.inl member
    cases call with
    | lookup name =>
      rcases exec_lookup name c with ⟨reached, known, ran⟩ | ⟨failed, exc, ran⟩
      · exact next ran (h.congr rfl) old ⟨fun goes => goes reached known, fun goes _ _ => goes⟩
      · rw [Proc.forEach_cons, Proc.exec_bind_error ran]
        refine ⟨fun _ => ⟨made, h.congr rfl, fun r member => Or.inl member⟩, fun broken => absurd ?_ broken⟩
        exact fun reached known => absurd ⟨reached, known⟩ failed
    | create x =>
      have made_or_not := exec_create h here
      by_cases creates : c.outage 0 = none ∧ ∀ y ∈ made, ¬ (y.node = x.node ∧ y.chain = x.chain)
      · rw [if_pos creates] at made_or_not
        have unfolds : LinksThrough c.ip made c.outage (.create x :: calls) ↔
            c.outage 1 = none ∧ LinksThrough c.ip (made ++ [x]) (fun k => c.outage (k + 2)) calls := by
          rw [LinksThrough, if_pos creates]
        by_cases linked : c.outage 1 = none
        · rw [if_pos linked] at made_or_not
          have after : Linked start (c.after 2) made := h.congr rfl
          refine next made_or_not (after.create here creates.2) ?_ (unfolds.trans (and_iff_right linked))
          intro r member
          rcases List.mem_append.mp member with before | new
          · exact Or.inl before
          · exact Or.inr (congrArg ChainCall.create (List.mem_singleton.mp new))
        · rw [if_neg linked] at made_or_not
          obtain ⟨c', ran, half⟩ := made_or_not
          refine ⟨fun goes => absurd (unfolds.mp goes).1 linked, fun _ => ⟨x, List.mem_cons_self, ?_⟩⟩
          rw [Proc.forEach_cons, Proc.exec_bind_ok ran]
          exact (Proc.Keeps.forEach calls (half_keeps x)).final half
      · rw [if_neg creates] at made_or_not
        refine next made_or_not (h.congr rfl) old ?_
        rw [LinksThrough, if_neg creates]
        exact Iff.rfl
    | rule node chain rule =>
      have ran := exec_tryOne node (.append (.user chain) rule) c
      refine next ran ?_ old ?_
      · split
        · have after : Linked start (c.after 1) made := h.congr rfl
          exact after.rule node chain here.2 here.1
        · exact h.congr rfl
      · split <;> exact Iff.rfl

/-- Taking down chains, each at the hook it is linked to. -/
theorem Linked.removeAll (h : Linked start c made) (removals : List Removal)
    (free : ∀ r ∈ removals, (start.node r.node).tables.Free r.chain)
    (at_hook : ∀ r ∈ removals, ∀ x ∈ made, x.node = r.node → x.chain = r.chain → x.hook = r.hook) :
    Linked start (c.remove removals) (made.filter fun x => ∀ r ∈ removals, ¬ (x.node = r.node ∧ x.chain = r.chain)) := by
  induction removals generalizing c made with
  | nil =>
    have all : (made.filter fun x => ∀ r ∈ ([] : List Removal), ¬ (x.node = r.node ∧ x.chain = r.chain)) = made := by
      simp
    rw [all]
    exact h
  | cons r removals ih =>
    have one := h.remove (free r List.mem_cons_self) (at_hook r List.mem_cons_self)
    have rest := ih one (fun s member => free s (List.mem_cons_of_mem r member)) fun s member x among =>
      at_hook s (List.mem_cons_of_mem r member) x (List.mem_filter.mp among).1
    rw [List.filter_filter] at rest
    have same : (made.filter fun x => ∀ s ∈ r :: removals, ¬ (x.node = s.node ∧ x.chain = s.chain)) =
        made.filter fun x => decide (∀ s ∈ removals, ¬ (x.node = s.node ∧ x.chain = s.chain)) &&
          decide (¬ (x.node = r.node ∧ x.chain = r.chain)) := by
      refine List.filter_congr fun x _ => ?_
      rw [Bool.eq_iff_iff, Bool.and_eq_true, decide_eq_true_eq, decide_eq_true_eq, decide_eq_true_eq,
        List.forall_mem_cons, and_comm]
    rw [same]
    exact rest

/-- A chain that is not linked is still there after its removal. -/
theorem Half.removeAll (h : Half r c) (removals : List Removal) : Half r (c.remove removals) := by
  induction removals generalizing c with
  | nil => exact h
  | cons x removals ih => exact ih (h.onTables fun T unlinked => unlinked.remove x.chain x.hook)

/-- The filter table of every node is the starting one. -/
def Restored (start c : Cluster) : Prop :=
  ∀ name, (c.node name).tables.builtin = (start.node name).tables.builtin ∧
    (c.node name).tables.user.get? = (start.node name).tables.user.get?

/-- Where docker works again, removing the chains that the calls create restores the tables if and
only if every link went through. -/
theorem restored_iff {calls : List ChainCall} {removals : List Removal} (free : ForFree start calls)
    (removable : ∀ r ∈ removals, (start.node r.node).tables.Free r.chain)
    (covers : ∀ r, .create r ∈ calls → ∃ x ∈ removals, r.node = x.node ∧ r.chain = x.chain)
    (at_hook : ∀ r, .create r ∈ calls → ∀ x ∈ removals, r.node = x.node → r.chain = x.chain → r.hook = x.hook) :
    Restored start (((Proc.forEach calls ChainCall.run).exec start).2.remove removals) ↔
      LinksThrough start.ip [] start.outage calls := by
  obtain ⟨through, broken⟩ := exec_calls (linked_nil start) free
  constructor
  · intro restored
    by_contra fails
    obtain ⟨r, member, half⟩ := broken fails
    have there := (half.removeAll removals).there
    rw [(restored r.node).2] at there
    have absent : (start.node r.node).tables.user.get? r.chain = none := (free _ member).1
    rw [absent] at there
    cases there
  · intro goes name
    obtain ⟨made, linked, from_calls⟩ := through goes
    have created : ∀ x ∈ made, .create x ∈ calls := fun x member =>
      (from_calls x member).resolve_left List.not_mem_nil
    have gone := linked.removeAll removals removable fun r among x member => at_hook x (created x member) r among
    have nothing : (made.filter fun x => ∀ r ∈ removals, ¬ (x.node = r.node ∧ x.chain = r.chain)) = [] := by
      rw [List.filter_eq_nil_iff]
      intro x member kept
      obtain ⟨r, among, same⟩ := covers x (created x member)
      exact of_decide_eq_true kept r among same
    rw [nothing] at gone
    obtain ⟨l, stacked, outline⟩ := gone name
    rw [List.filter_nil, List.map_nil, List.map_eq_nil_iff] at outline
    rw [outline] at stacked
    exact stacked.restored

end Calls

end FaultStorm
