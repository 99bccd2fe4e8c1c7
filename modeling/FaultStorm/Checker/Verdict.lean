import FaultStorm.Checker
import FaultStorm.Python.Json.Printable

/-!
# What the checker decides

The variables of the loop are sets that can be read off the log: the values invoked, acknowledged
and failed, and the last read that returned. The fields of the result follow.
-/

namespace FaultStorm.Checker

open Python

/-- The value of a line. -/
def valueOf (members : List (String × Json)) : Option Int :=
  (given members "value").bind fun value => (toInt value).toOption

/-- The value of an add of this type. -/
def addOf (type : String) : Json → Option Int
  | .obj members =>
    if isText members "action" "add" && isText members "type" type then
      (given members "value").bind fun value => (toInt value).toOption
    else none
  | _ => none

/-- The snapshot of a read that returned. -/
def readOf : Json → Option (Finset Atom)
  | .obj members =>
    if isText members "action" "read" && isText members "type" "ok" then
      match given members "value" with
      | some (.arr elements) => (elements.mapM toAtom).toOption.map List.toFinset
      | _ => none
    else none
  | _ => none

/-- The values of the adds of this type. -/
def adds (type : String) (l : List Json) : Finset Atom :=
  (l.filterMap fun op => (addOf type op).map fun z => Atom.number z).toFinset

/-- What a line is taken for. -/
def opOf (line : List Char) : Option Json :=
  if Text.strip line = [] then none else Json.loads (Text.strip line)

theorem ops_eq (log : List Char) : ops log = (Text.readLines log).filterMap opOf := rfl

theorem filterMap_cons_toList (line : List Char) (lines : List (List Char)) :
    (line :: lines).filterMap opOf = (opOf line).toList ++ lines.filterMap opOf := by
  cases found : opOf line with
  | none =>
    rw [List.filterMap_cons_none found]
    rfl
  | some op =>
    rw [List.filterMap_cons_some found]
    rfl

/-- The first line of a log. -/
theorem ops_line {line rest : List Char} (oneLine : Text.OneLine line) :
    ops (line ++ '\n' :: rest) = (opOf line).toList ++ ops rest := by
  rw [ops_eq, ops_eq, Text.readLines_line oneLine, filterMap_cons_toList]

/-- A log without a line end. -/
theorem ops_last {line : List Char} (oneLine : Text.OneLine line) : ops line = (opOf line).toList := by
  rw [ops_eq, Text.readLines_last oneLine]
  split
  · rename_i empty
    rw [empty]
    rfl
  · rw [filterMap_cons_toList, List.filterMap_nil, List.append_nil]

theorem ops_texts {lines : List (List Char)} (oneLine : ∀ line ∈ lines, Text.OneLine line) :
    ops (lines.flatMap (· ++ ['\n'])) = lines.filterMap opOf := by
  rw [ops_eq, Text.readLines_flatMap oneLine]

/-- A written object is taken for what it is. -/
theorem opOf_dumps (members : List (String × Json)) : opOf (Json.dumps (.obj members)) = some (.obj members) := by
  have nonempty : Json.dumps (.obj members) ≠ [] := by
    rw [Json.dumps]
    simp
  rw [opOf, Json.strip_dumps_obj, if_neg nonempty, Json.loads_dumps]

/-- The values that the log says were handed to the database. -/
def invoked (log : List Char) : Finset Atom := adds "invoke" (ops log)

/-- The values that the log says were written. -/
def acked (log : List Char) : Finset Atom := adds "ok" (ops log)

/-- The values that the log says were not written. -/
def failed (log : List Char) : Finset Atom := adds "fail" (ops log)

/-- The last read of the log that returned. -/
def lastRead (log : List Char) : Option (Finset Atom) := ((ops log).filterMap readOf).getLast?

section Loop

variable {s t : Scan} {op : Json} {l : List Json} {members : List (String × Json)} {key a b : String}

theorem isText_unique (one : isText members key a = true) (other : isText members key b = true) : a = b := by
  unfold isText at one other
  cases found : Json.member members key with
  | none =>
    rw [found] at one other
    exact (beq_iff_eq.mp one).trans (beq_iff_eq.mp other).symm
  | some value =>
    rw [found] at one other
    cases value with
    | str s => exact (beq_iff_eq.mp one).symm.trans (beq_iff_eq.mp other)
    | _ => cases one

theorem isText_other (one : isText members key a = true) (ne : a ≠ b) : isText members key b = false := by
  cases other : isText members key b with
  | false => rfl
  | true => exact absurd (isText_unique one other) ne

/-- What one operation does to the sets. -/
structure Advances (s : Scan) (op : Json) (t : Scan) : Prop where
  attempted : t.attempted = s.attempted ∪ adds "invoke" [op]
  successful : t.successful = s.successful ∪ adds "ok" [op]
  failed : t.failed = s.failed ∪ adds "fail" [op]
  finalRead : t.finalRead = (readOf op).getD s.finalRead
  readCount : t.readCount = s.readCount + (readOf op).toList.length

theorem adds_cons (type : String) (op : Json) (l : List Json) : adds type (op :: l) = adds type [op] ∪ adds type l := by
  unfold adds
  cases found : addOf type op with
  | none => simp [found]
  | some z =>
    rw [List.filterMap_cons_some (by rw [found]; rfl), List.filterMap_cons_some (by rw [found]; rfl),
      List.toFinset_cons, List.toFinset_cons, List.filterMap_nil, List.toFinset_nil, Finset.insert_union,
      Finset.empty_union]

/-- An operation that is no read. -/
theorem Advances.of_unread (unread : readOf op = none) (attempted : t.attempted = s.attempted ∪ adds "invoke" [op])
    (successful : t.successful = s.successful ∪ adds "ok" [op]) (failed : t.failed = s.failed ∪ adds "fail" [op])
    (finalRead : t.finalRead = s.finalRead) (readCount : t.readCount = s.readCount) : Advances s op t := by
  refine ⟨attempted, successful, failed, ?_, ?_⟩
  · rw [unread, finalRead]
    rfl
  · rw [unread, readCount]
    rfl

/-- An operation that adds nothing. -/
theorem adds_idle (idle : ∀ type, addOf type op = none) (type : String) : adds type [op] = ∅ := by
  simp [adds, idle type]

/-- An operation that no set takes in. -/
theorem Advances.refl (idle : ∀ type, addOf type op = none) (unread : readOf op = none) : Advances s op s := by
  apply Advances.of_unread unread
  · rw [adds_idle idle, Finset.union_empty]
  · rw [adds_idle idle, Finset.union_empty]
  · rw [adds_idle idle, Finset.union_empty]
  · rfl
  · rfl

/-- The timestamp of a line. -/
def stampOf (members : List (String × Json)) : Option ℚ :=
  (given members "timestamp").bind fun ts => (toFloat ts).toOption

/-- What a line of an add comes to. -/
inductive AddStep (s : Scan) (members : List (String × Json)) : Scan → Prop
  | skipped (absent : valueOf members = none) : AddStep s members s
  | invoke (z : Int) (value : valueOf members = some z) (typed : isText members "type" "invoke" = true) :
      AddStep s members { s with
        attempted := insert (.number z) s.attempted
        valueToInvokeTs := (stampOf members).elim s.valueToInvokeTs (s.valueToInvokeTs.set z)
        writeInvokeTimes := s.writeInvokeTimes ++ (stampOf members).toList }
  | ok (z : Int) (value : valueOf members = some z) (typed : isText members "type" "ok" = true) :
      AddStep s members { s with
        successful := insert (.number z) s.successful
        okWriteTimes := s.okWriteTimes ++ (stampOf members).toList }
  | fail (z : Int) (value : valueOf members = some z) (typed : isText members "type" "fail" = true) :
      AddStep s members { s with failed := insert (.number z) s.failed }
  | other (invoke : isText members "type" "invoke" = false) (ok : isText members "type" "ok" = false)
      (fail : isText members "type" "fail" = false) : AddStep s members s

/-- The timestamp is taken if it is there. -/
theorem stamped {u : Scan} {f : ℚ → Scan}
    (ran : (match given members "timestamp" with
      | none => return u
      | some ts => return f (← toFloat ts)) = Except.ok t) :
    (stampOf members = none ∧ t = u) ∨ ∃ q, stampOf members = some q ∧ t = f q := by
  cases found : given members "timestamp" with
  | none =>
    rw [found] at ran
    cases ran
    exact Or.inl ⟨by rw [stampOf, found, Option.bind_none], rfl⟩
  | some ts =>
    rw [found] at ran
    obtain ⟨q, float, returned⟩ := bind_ok ran
    cases returned
    exact Or.inr ⟨q, by rw [stampOf, found, Option.bind_some, float]; rfl, rfl⟩

theorem addStep (ran : scanAdd s members = .ok t) : AddStep s members t := by
  unfold scanAdd at ran
  cases value : given members "value" with
  | none =>
    rw [value] at ran
    cases ran
    exact .skipped (by rw [valueOf, value]; rfl)
  | some v =>
    rw [value] at ran
    obtain ⟨z, int, ran⟩ := bind_ok ran
    have known : valueOf members = some z := by
      rw [valueOf, value, Option.bind_some, int]
      rfl
    cases invoke : isText members "type" "invoke" with
    | true =>
      rw [if_pos invoke] at ran
      have step := AddStep.invoke (s := s) z known invoke
      rcases stamped ran with ⟨absent, rfl⟩ | ⟨q, stamp, rfl⟩
      · simpa [absent] using step
      · simpa [stamp] using step
    | false =>
      rw [if_neg (by rw [invoke]; nofun)] at ran
      cases ok : isText members "type" "ok" with
      | true =>
        rw [if_pos ok] at ran
        have step := AddStep.ok (s := s) z known ok
        rcases stamped ran with ⟨absent, rfl⟩ | ⟨q, stamp, rfl⟩
        · simpa [absent] using step
        · simpa [stamp] using step
      | false =>
        rw [if_neg (by rw [ok]; nofun)] at ran
        cases fail : isText members "type" "fail" with
        | true =>
          rw [if_pos fail] at ran
          cases ran
          exact .fail z known fail
        | false =>
          rw [if_neg (by rw [fail]; nofun)] at ran
          cases ran
          exact .other invoke ok fail

theorem adds_typed {type : String} {z : Int} (add : isText members "action" "add" = true)
    (typed : isText members "type" type = true) (value : valueOf members = some z) :
    adds type [.obj members] = {.number z} := by
  have found : addOf type (.obj members) = some z := by
    rw [addOf, add, typed]
    exact value
  simp [adds, found]

theorem adds_untyped {type : String} (typed : isText members "type" type = false) : adds type [.obj members] = ∅ := by
  simp [adds, addOf, typed]

theorem advances_add (add : isText members "action" "add" = true) (ran : scanAdd s members = .ok t) :
    Advances s (.obj members) t := by
  have unread : readOf (.obj members) = none := by
    simp [readOf, isText_other add (b := "read") (by decide)]
  cases addStep ran with
  | skipped absent =>
    refine Advances.refl (fun type => ?_) unread
    rw [addOf, ← valueOf, absent, ite_self]
  | invoke z value typed =>
    apply Advances.of_unread unread
    · rw [adds_typed add typed value, Finset.union_singleton]
    · rw [adds_untyped (isText_other typed (by decide)), Finset.union_empty]
    · rw [adds_untyped (isText_other typed (by decide)), Finset.union_empty]
    · rfl
    · rfl
  | ok z value typed =>
    apply Advances.of_unread unread
    · rw [adds_untyped (isText_other typed (by decide)), Finset.union_empty]
    · rw [adds_typed add typed value, Finset.union_singleton]
    · rw [adds_untyped (isText_other typed (by decide)), Finset.union_empty]
    · rfl
    · rfl
  | fail z value typed =>
    apply Advances.of_unread unread
    · rw [adds_untyped (isText_other typed (by decide)), Finset.union_empty]
    · rw [adds_untyped (isText_other typed (by decide)), Finset.union_empty]
    · rw [adds_typed add typed value, Finset.union_singleton]
    · rfl
    · rfl
  | other invoke ok fail =>
    apply Advances.of_unread unread
    · rw [adds_untyped invoke, Finset.union_empty]
    · rw [adds_untyped ok, Finset.union_empty]
    · rw [adds_untyped fail, Finset.union_empty]
    · rfl
    · rfl

theorem advances_read (read : isText members "action" "read" = true) (ran : scanRead s members = .ok t) :
    Advances s (.obj members) t := by
  have idle : ∀ type, addOf type (.obj members) = none := by
    intro type
    simp [addOf, isText_other read (by decide : "read" ≠ "add")]
  unfold scanRead at ran
  by_cases ok : isText members "type" "ok" = true
  · rw [if_pos ok] at ran
    have returned : readOf (.obj members) = match given members "value" with
        | some (.arr elements) => (elements.mapM toAtom).toOption.map List.toFinset
        | _ => none := by
      simp [readOf, read, ok]
    have same : ∀ {type}, adds type [Json.obj members] = ∅ := adds_idle idle _
    cases value : given members "value" with
    | none =>
      rw [value] at ran returned
      cases ran
      exact Advances.refl idle returned
    | some v =>
      rw [value] at ran returned
      cases v with
      | arr elements =>
        obtain ⟨l, atoms, counted⟩ := bind_ok ran
        cases counted
        dsimp only at returned
        rw [atoms] at returned
        constructor
        · rw [same, Finset.union_empty]
        · rw [same, Finset.union_empty]
        · rw [same, Finset.union_empty]
        · rw [returned]
          rfl
        · rw [returned]
          rfl
      | _ =>
        cases ran
        exact Advances.refl idle returned
  · rw [if_neg ok] at ran
    cases ran
    exact Advances.refl idle (by simp [readOf, ok])

theorem advances_scan (ran : scan s op = .ok t) : Advances s op t := by
  cases op with
  | obj members =>
    unfold scan at ran
    dsimp only at ran
    by_cases add : isText members "action" "add" = true
    · rw [if_pos add] at ran
      exact advances_add add ran
    rw [if_neg add] at ran
    by_cases read : isText members "action" "read" = true
    · rw [if_pos read] at ran
      exact advances_read read ran
    · rw [if_neg read] at ran
      cases ran
      exact Advances.refl (fun type => by simp [addOf, add]) (by simp [readOf, read])
  | _ => cases ran

/-- The whole loop. -/
theorem run_scan (ran : l.foldlM scan s = .ok t) :
    t.attempted = s.attempted ∪ adds "invoke" l ∧ t.successful = s.successful ∪ adds "ok" l ∧
      t.failed = s.failed ∪ adds "fail" l ∧ t.finalRead = (l.filterMap readOf).getLast?.getD s.finalRead ∧
      t.readCount = s.readCount + (l.filterMap readOf).length := by
  induction l generalizing s with
  | nil =>
    cases ran
    simp [adds]
  | cons op l ih =>
    rw [List.foldlM_cons] at ran
    obtain ⟨u, step, ran⟩ := bind_ok ran
    have one := advances_scan step
    obtain ⟨attempted, successful, failed, finalRead, readCount⟩ := ih ran
    refine ⟨?_, ?_, ?_, ?_, ?_⟩
    · rw [attempted, one.attempted, Finset.union_assoc, ← adds_cons]
    · rw [successful, one.successful, Finset.union_assoc, ← adds_cons]
    · rw [failed, one.failed, Finset.union_assoc, ← adds_cons]
    · rw [finalRead, one.finalRead]
      cases read : readOf op with
      | none => rw [List.filterMap_cons_none read, Option.getD_none]
      | some S =>
        rw [List.filterMap_cons_some read, Option.getD_some, List.getLast?_cons, Option.getD_some]
    · rw [readCount, one.readCount]
      cases read : readOf op with
      | none =>
        rw [List.filterMap_cons_none read]
        rfl
      | some S =>
        rw [List.filterMap_cons_some read, List.length_cons]
        show s.readCount + 1 + _ = _
        omega

end Loop

section Result

variable {log : List Char} {result : CheckResult} {S : Finset Atom}

/-- The fields of the result of a log whose last read is `S`. -/
structure Verdict (log : List Char) (S : Finset Atom) (result : CheckResult) : Prop where
  lost : result.lost = acked log \ S
  unexpected : result.unexpected = S \ invoked log
  recovered : result.recovered = (S ∩ invoked log) \ acked log
  valid : result.valid = true ↔ acked log ⊆ S ∧ S ⊆ invoked log
  totalAttempts : result.totalAttempts = (invoked log).card
  successfulAdds : result.successfulAdds = (acked log).card
  failedAdds : result.failedAdds = (failed log).card
  errors : result.errors = none

theorem ran_scan (ran : checkConsistency log = .ok result) :
    ∃ s, (ops log).foldlM scan Scan.start = .ok s ∧ result = s.result := by
  unfold checkConsistency at ran
  dsimp only [bind, Except.bind, pure, Except.pure] at ran
  cases loop : (ops log).foldlM scan Scan.start with
  | error e =>
    rw [loop] at ran
    cases ran
  | ok s =>
    rw [loop] at ran
    exact ⟨s, rfl, (Except.ok.inj ran).symm⟩

theorem verdict (ran : checkConsistency log = .ok result) (read : lastRead log = some S) :
    Verdict log S result := by
  obtain ⟨s, loop, rfl⟩ := ran_scan ran
  obtain ⟨attempted, successful, failures, finalRead, readCount⟩ := run_scan loop
  have counted : s.readCount ≠ 0 := by
    rw [readCount]
    intro none
    have empty : (ops log).filterMap readOf = [] := List.length_eq_zero_iff.mp (by simpa [Scan.start] using none)
    rw [lastRead, empty] at read
    cases read
  have known : s.finalRead = S := by
    rw [finalRead]
    unfold lastRead at read
    rw [read]
    rfl
  have sets : s.attempted = invoked log ∧ s.successful = acked log ∧ s.failed = failed log := by
    rw [attempted, successful, failures]
    simp [Scan.start, invoked, acked, failed]
  have fields : s.result = _ := if_neg counted
  rw [fields]
  dsimp only
  rw [known, sets.1, sets.2.1, sets.2.2]
  constructor
  · rfl
  · rfl
  · rfl
  · simp [Finset.sdiff_eq_empty_iff_subset]
  · rfl
  · rfl
  · rfl
  · rfl

/-- A log without a read that returned is not valid, and nothing is said to be lost or unexpected. -/
theorem verdict_unread (ran : checkConsistency log = .ok result) (unread : lastRead log = none) :
    result.valid = false ∧ result.lost = ∅ ∧ result.unexpected = ∅ := by
  obtain ⟨s, loop, rfl⟩ := ran_scan ran
  obtain ⟨-, -, -, -, readCount⟩ := run_scan loop
  have none : s.readCount = 0 := by
    rw [readCount, List.getLast?_eq_none_iff.mp unread]
    rfl
  rw [Scan.result, if_pos none]
  exact ⟨rfl, rfl, rfl⟩

/-- Definite failures are kept apart from indeterminate writes if and only if no value of the last
read was invoked and failed without being acknowledged. -/
theorem failures_apart_iff (ran : checkConsistency log = .ok result) (read : lastRead log = some S) :
    ((∀ v ∈ failed log, v ∉ acked log → v ∉ result.recovered) ∧
      (∀ v ∈ failed log, v ∉ acked log → v ∈ S → result.valid = false) ∧
      ∀ v, v ∈ result.recovered ↔ v ∈ S ∧ v ∈ invoked log ∧ v ∉ acked log ∧ v ∉ failed log) ↔
    ∀ v ∈ S, v ∈ invoked log → v ∈ failed log → v ∈ acked log := by
  have decided := verdict ran read
  have recovered : ∀ v, v ∈ result.recovered ↔ (v ∈ S ∧ v ∈ invoked log) ∧ v ∉ acked log := by
    intro v
    rw [decided.recovered, Finset.mem_sdiff, Finset.mem_inter]
  constructor
  · rintro ⟨apart, -, -⟩ v there tried fail
    by_contra unacked
    exact apart v fail unacked ((recovered v).mpr ⟨⟨there, tried⟩, unacked⟩)
  · intro apart
    refine ⟨?_, ?_, ?_⟩
    · intro v fail unacked member
      obtain ⟨⟨there, tried⟩, -⟩ := (recovered v).mp member
      exact unacked (apart v there tried fail)
    · intro v fail unacked there
      rw [Bool.eq_false_iff]
      intro valid
      have tried := (decided.valid.mp valid).2 there
      exact unacked (apart v there tried fail)
    · intro v
      rw [recovered]
      constructor
      · rintro ⟨⟨there, tried⟩, unacked⟩
        exact ⟨there, tried, unacked, fun fail => unacked (apart v there tried fail)⟩
      · rintro ⟨there, tried, unacked, -⟩
        exact ⟨⟨there, tried⟩, unacked⟩

/-- An add that failed for certain, and a read that finds its value, or not. -/
@[irreducible] def failedThenRead (values : String) : List Char :=
  ("\x7b\"type\":\"invoke\",\"action\":\"add\",\"value\":1\x7d\n" ++
    "\x7b\"type\":\"fail\",\"action\":\"add\",\"value\":1\x7d\n" ++
    "\x7b\"type\":\"ok\",\"action\":\"read\",\"value\":" ++ values ++ "\x7d\n").toList

/-- The read does not find it. -/
theorem failures_apart_unread : ∃ result, checkConsistency (failedThenRead "[]") = .ok result ∧
    ∀ v ∈ failed (failedThenRead "[]"), v ∉ acked (failedThenRead "[]") → v ∉ result.recovered := by
  have checked : lastRead (failedThenRead "[]") = some ∅ ∧ (checkConsistency (failedThenRead "[]")).toOption.isSome := by
    decide +kernel
  obtain ⟨read, returns⟩ := checked
  cases ran : checkConsistency (failedThenRead "[]") with
  | error e =>
    rw [ran] at returns
    cases returns
  | ok result =>
    have apart := (failures_apart_iff ran read).mpr fun v there => absurd there (Finset.notMem_empty v)
    exact ⟨result, rfl, apart.1⟩

/-- The read finds it: the log is valid, and the value counts as recovered. -/
theorem failed_recovered : lastRead (failedThenRead "[1]") = some {.number 1} ∧
    .number 1 ∈ failed (failedThenRead "[1]") ∧ .number 1 ∉ acked (failedThenRead "[1]") ∧
    ((checkConsistency (failedThenRead "[1]")).toOption.map fun result => (result.recovered, result.valid)) =
      some ({.number 1}, true) := by
  decide +kernel

end Result

end FaultStorm.Checker
