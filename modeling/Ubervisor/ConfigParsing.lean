import Ubervisor.StoredGroups

/-! # Parsing a configuration

`child_config_from_json` with the vector `cc_command` as memory: an early exit hands the vector
to `child_config_free` as far as it is filled, and the walk of `child_config_free` stops at the
first NULL. The record of the other modules is what is left when the memory is forgotten. -/
namespace UbervisorConfigParsing

open UbervisorValues
open UbervisorChildConfigs
open UbervisorServer
open UbervisorEvents
open UbervisorJsonC

/-- One element of `cc_command`. A cell that `malloc` handed out and nobody wrote is `unset`. -/
inductive ArgCell where
  | unset
  | null
  | str (s : CStr)
  deriving DecidableEq

abbrev ArgVector := List ArgCell

/-- `for (i = 0; cc->cc_command[i] != NULL; i++)`: whether every cell it reads was assigned. -/
def walkAssigned : ArgVector → Bool
  | .null :: _ => true
  | .str _ :: v => walkAssigned v
  | _ => false

/-- The strings before the terminator, as `execvp` sees them. -/
def vectorStrings : ArgVector → List CStr
  | .str s :: v => s :: vectorStrings v
  | _ => []

/-- The loop over the elements of `args` from turn `i` on. An exit from it comes with the vector
that `child_config_free` gets. -/
def fillArgs : List Json → ℕ → ArgVector → Except ArgVector ArgVector
  | [], i, v => .ok (v.set i .null)
  | .null :: _, i, v => .error (v.set i .null)
  | .string s :: l, i, v => fillArgs l (i + 1) (v.set i (.str (CStr.ofBytes s)))
  | _ :: _, _, v => .error v

/-- An early exit, with `cc_command` as `child_config_free` finds it. -/
abbrev Parsing := Except (Option ArgVector)

/-- A field is taken, or everything is freed while `cc_command` is NULL. -/
def orFree {α : Type} : Option α → Parsing α
  | some a => .ok a
  | none => .error none

def fillCommand (obj : Json) : Parsing (Option ArgVector) :=
  match obj.objectGet "args" with
  | none => .ok none
  | some (.array l) =>
    match fillArgs l 0 (List.replicate (l.length + 1) .unset) with
    | .ok v => .ok (some v)
    | .error v => .error (some v)
  | some _ => .error none

/-- `child_config_from_json`. -/
def childConfigFromJsonMem (obj : Json) : Parsing ChildConfig := do
  let name ← orFree (getField obj "name" none)
  let new := childConfigNew (← orFree name)
  let stdout ← orFree (getField obj "stdout" new.ccStdout)
  let stderr ← orFree (getField obj "stderr" new.ccStderr)
  let dir ← orFree (getField obj "dir" new.ccDir)
  let heartbeat ← orFree (getField obj "heartbeat" new.ccHeartbeat)
  let fatalCb ← orFree (getField obj "fatal_cb" new.ccFatalCb)
  let username ← orFree (getField obj "username" new.ccUsername)
  let groupname ← orFree (getField obj "groupname" new.ccGroupname)
  let instances ← orFree (getIntField obj "instances" new.ccInstances)
  let status ← orFree (getIntField obj "status" new.ccStatus)
  let killsig ← orFree (getIntField obj "killsig" new.ccKillsig)
  let uid ← orFree (getIntField obj "uid" new.ccUid)
  let gid ← orFree (getIntField obj "gid" new.ccGid)
  let error ← orFree (getIntField obj "error" new.ccError)
  let age ← orFree (getIntField obj "age" new.ccAge)
  let command ← fillCommand obj
  return { new with
    ccCommand := command.map vectorStrings, ccStdout := stdout, ccStderr := stderr, ccDir := dir
    ccHeartbeat := heartbeat, ccFatalCb := fatalCb, ccUsername := username
    ccGroupname := groupname, ccInstances := instances, ccStatus := status
    ccKillsig := killsig, ccUid := uid, ccGid := gid, ccError := error, ccAge := age }

section Vectors

variable {l : List Json} {done : List CStr} {v rest : ArgVector}

def isString : Json → Bool
  | .string _ => true
  | _ => false

def isNull : Json → Bool
  | .null => true
  | _ => false

/-- The strings an array begins with. -/
def leadingStrings : List Json → List CStr
  | .string s :: l => CStr.ofBytes s :: leadingStrings l
  | _ => []

/-- The cells from the first that holds no string on. -/
def restCells (l : List Json) : ArgVector :=
  match l.dropWhile isString with
  | [] => [.null]
  | .null :: l => .null :: List.replicate (l.length + 1) .unset
  | _ :: l => List.replicate (l.length + 2) .unset

theorem restCells_string (s : Bytes) (l : List Json) : restCells (.string s :: l) = restCells l :=
  rfl

theorem walk_strings (done : List CStr) (rest : ArgVector) :
    walkAssigned (done.map ArgCell.str ++ rest) = walkAssigned rest := by
  induction done with
  | nil => rfl
  | cons s done ih => exact ih

theorem vectorStrings_strings (done : List CStr) (rest : ArgVector) :
    vectorStrings (done.map ArgCell.str ++ rest) = done ++ vectorStrings rest := by
  induction done with
  | nil => rfl
  | cons s done ih => simp [vectorStrings, ih]

theorem set_next (done : List CStr) (c d : ArgCell) (v : ArgVector) :
    (done.map ArgCell.str ++ c :: v).set done.length d = done.map ArgCell.str ++ d :: v := by
  rw [List.set_append_right _ _ (by rw [List.length_map]), List.length_map, Nat.sub_self]
  rfl

/-- What the loop makes of a vector whose first cells it has filled. -/
theorem fillArgs_filled (l : List Json) (done : List CStr) :
    fillArgs l done.length (done.map ArgCell.str ++ List.replicate (l.length + 1) .unset) =
      if l.all isString then .ok ((done ++ leadingStrings l).map ArgCell.str ++ restCells l)
      else .error ((done ++ leadingStrings l).map ArgCell.str ++ restCells l) := by
  induction l generalizing done with
  | nil =>
    rw [fillArgs, List.length_nil, List.replicate_succ, set_next]
    simp [leadingStrings, restCells]
  | cons j l ih =>
    rw [List.length_cons, List.replicate_succ]
    cases j with
    | string s =>
      have hih := ih (done ++ [CStr.ofBytes s])
      rw [List.length_append, List.length_singleton, List.map_append, List.append_assoc] at hih
      rw [fillArgs, set_next]
      refine hih.trans ?_
      rw [restCells_string]
      simp [leadingStrings, isString]
    | null =>
      rw [fillArgs, set_next]
      simp [leadingStrings, restCells, isString]
    | _ => simp [fillArgs, leadingStrings, restCells, isString, List.replicate_succ]

theorem walk_restCells (l : List Json) : walkAssigned (restCells l) = true ↔
    ∀ j, l.find? (fun j => !isString j) = some j → isNull j = true := by
  induction l with
  | nil => simp [restCells, walkAssigned]
  | cons j l ih =>
    cases j with
    | string s =>
      rw [restCells_string, ih, List.find?_cons_of_neg (by simp [isString])]
    | _ => simp [restCells, isString, isNull, walkAssigned, List.replicate_succ]

theorem getArgs_leading (l : List Json) :
    getArgs l = if l.all isString then some (leadingStrings l) else none := by
  induction l with
  | nil => rfl
  | cons j l ih =>
    cases j with
    | string s =>
      rw [getArgs, ih]
      by_cases hl : l.all isString = true
      · simp [hl, isString, leadingStrings]
      · simp [hl, isString]
    | _ => simp [getArgs, isString]

/-- A complete vector holds the strings of the array and ends with NULL. -/
theorem restCells_complete (h : l.all isString = true) : restCells l = [.null] := by
  have hdrop : l.dropWhile isString = [] := by
    rw [List.dropWhile_eq_nil_iff]
    exact List.all_eq_true.mp h
  rw [restCells, hdrop]

end Vectors

section Refinement

variable {obj : Json} {cc : ChildConfig}

theorem fillCommand_ok : (fillCommand obj).toOption.map (Option.map vectorStrings) =
    getCommand obj := by
  unfold fillCommand getCommand
  cases hargs : obj.objectGet "args" with
  | none => rfl
  | some j =>
    cases j with
    | array l =>
      have hfill := fillArgs_filled l []
      simp only [List.length_nil, List.map_nil, List.nil_append] at hfill
      dsimp only
      rw [hfill, getArgs_leading]
      by_cases hl : l.all isString = true
      · rw [if_pos hl, if_pos hl]
        simp [Except.toOption, vectorStrings_strings, restCells_complete hl, vectorStrings]
      · rw [if_neg hl, if_neg hl]
        rfl
    | _ => rfl

theorem toOption_bind {ε α β : Type} (x : Except ε α) (f : α → Except ε β) :
    (x >>= f).toOption = x.toOption >>= fun a => (f a).toOption := by
  cases x <;> rfl

theorem toOption_orFree {α : Type} (o : Option α) : (orFree o).toOption = o := by
  cases o <;> rfl

end Refinement

/-- The fields with a string, apart from the name. -/
def stringKeys : List String :=
  ["stdout", "stderr", "dir", "heartbeat", "fatal_cb", "username", "groupname"]

def intKeys : List String := ["instances", "status", "killsig", "uid", "gid", "error", "age"]

/-- There is a name, and every field that is present has its type, `args` aside. -/
structure ScalarSchema (obj : Json) : Prop where
  name : ∃ s, obj.objectGet "name" = some (.string s)
  strings : ∀ k ∈ stringKeys, ∀ j, obj.objectGet k = some j → ∃ s, j = .string s
  ints : ∀ k ∈ intKeys, ∀ j, obj.objectGet k = some j → ∃ i, j = .int i

structure Schema (obj : Json) : Prop extends ScalarSchema obj where
  args : ∀ j, obj.objectGet "args" = some j → ∃ l, j = .array l ∧ ∀ e ∈ l, ∃ s, e = .string s

/-- The value of a string field, as json-c hands it out. -/
def stringValue (obj : Json) (key : String) : Option CStr :=
  match obj.objectGet key with
  | some (.string s) => some (CStr.ofBytes s)
  | _ => none

def intValue (obj : Json) (key : String) (default : ℤ) : ℤ :=
  match obj.objectGet key with
  | some (.int i) => clampInt i
  | _ => default

def argsValue (obj : Json) : Option (List CStr) :=
  match obj.objectGet "args" with
  | some (.array l) => some (leadingStrings l)
  | _ => none

/-- The record an object describes: its values, and the defaults of a new record elsewhere. -/
def described (obj : Json) : ChildConfig :=
  let new := childConfigNew ((stringValue obj "name").getD (CStr.ofBytes []))
  { new with
    ccCommand := argsValue obj
    ccStdout := stringValue obj "stdout"
    ccStderr := stringValue obj "stderr"
    ccDir := stringValue obj "dir"
    ccHeartbeat := stringValue obj "heartbeat"
    ccFatalCb := stringValue obj "fatal_cb"
    ccUsername := stringValue obj "username"
    ccGroupname := stringValue obj "groupname"
    ccInstances := intValue obj "instances" new.ccInstances
    ccStatus := intValue obj "status" new.ccStatus
    ccKillsig := intValue obj "killsig" new.ccKillsig
    ccUid := intValue obj "uid" new.ccUid
    ccGid := intValue obj "gid" new.ccGid
    ccError := intValue obj "error" new.ccError
    ccAge := intValue obj "age" new.ccAge }

/-- The fields before `args`. -/
def scalarFields (obj : Json) : Option ChildConfig := do
  let name ← getField obj "name" none
  let new := childConfigNew (← name)
  let stdout ← getField obj "stdout" new.ccStdout
  let stderr ← getField obj "stderr" new.ccStderr
  let dir ← getField obj "dir" new.ccDir
  let heartbeat ← getField obj "heartbeat" new.ccHeartbeat
  let fatalCb ← getField obj "fatal_cb" new.ccFatalCb
  let username ← getField obj "username" new.ccUsername
  let groupname ← getField obj "groupname" new.ccGroupname
  let instances ← getIntField obj "instances" new.ccInstances
  let status ← getIntField obj "status" new.ccStatus
  let killsig ← getIntField obj "killsig" new.ccKillsig
  let uid ← getIntField obj "uid" new.ccUid
  let gid ← getIntField obj "gid" new.ccGid
  let error ← getIntField obj "error" new.ccError
  let age ← getIntField obj "age" new.ccAge
  return { new with
    ccStdout := stdout, ccStderr := stderr, ccDir := dir
    ccHeartbeat := heartbeat, ccFatalCb := fatalCb, ccUsername := username
    ccGroupname := groupname, ccInstances := instances, ccStatus := status
    ccKillsig := killsig, ccUid := uid, ccGid := gid, ccError := error, ccAge := age }

section Acceptance

variable {obj : Json} {cc : ChildConfig} {k : String}

theorem orFree_bind {α β : Type} (o : Option α) (f : α → Option β) :
    orFree (o >>= f) = orFree o >>= fun a => orFree (f a) := by
  cases o <;> rfl

theorem fromJson_scalars (obj : Json) : childConfigFromJson obj = scalarFields obj >>= fun cc =>
    getCommand obj >>= fun c => pure { cc with ccCommand := c } := by
  unfold childConfigFromJson scalarFields
  simp only [bind_assoc, pure_bind]

theorem childConfigFromJsonMem_scalars (obj : Json) :
    childConfigFromJsonMem obj = orFree (scalarFields obj) >>= fun cc =>
      fillCommand obj >>= fun c => pure { cc with ccCommand := c.map vectorStrings } := by
  unfold childConfigFromJsonMem scalarFields
  simp only [orFree_bind, bind_assoc]
  rfl

/-- Without the memory of the vector this is the parser of the other modules. -/
theorem childConfigFromJsonMem_toOption (obj : Json) :
    (childConfigFromJsonMem obj).toOption = childConfigFromJson obj := by
  rw [childConfigFromJsonMem_scalars, fromJson_scalars, toOption_bind, toOption_orFree,
    ← fillCommand_ok]
  refine bind_congr fun cc => ?_
  rw [toOption_bind]
  cases fillCommand obj <;> rfl

theorem getField_eq_some {v : Option CStr} : getField obj k none = some v ↔
    (∀ j, obj.objectGet k = some j → ∃ s, j = .string s) ∧ v = stringValue obj k := by
  unfold getField stringValue
  cases obj.objectGet k with
  | none => simp [eq_comm]
  | some j => cases j <;> simp [eq_comm]

theorem getIntField_eq_some {v old : ℤ} : getIntField obj k old = some v ↔
    (∀ j, obj.objectGet k = some j → ∃ i, j = .int i) ∧ v = intValue obj k old := by
  unfold getIntField intValue
  cases obj.objectGet k with
  | none => simp [eq_comm]
  | some j => cases j <;> simp [eq_comm]

theorem all_isString {l : List Json} :
    l.all isString = true ↔ ∀ e ∈ l, ∃ s, e = .string s := by
  rw [List.all_eq_true]
  refine forall₂_congr fun e _ => ?_
  cases e <;> simp [isString]

theorem getCommand_eq_some {v : Option (List CStr)} : getCommand obj = some v ↔
    (∀ j, obj.objectGet "args" = some j → ∃ l, j = .array l ∧ ∀ e ∈ l, ∃ s, e = .string s) ∧
      v = argsValue obj := by
  unfold getCommand argsValue
  cases obj.objectGet "args" with
  | none => simp [eq_comm]
  | some j =>
    cases j with
    | array l =>
      dsimp only
      rw [getArgs_leading]
      by_cases hl : l.all isString = true
      · have hall := all_isString.mp hl
        rw [if_pos hl, Option.map_some, Option.some_inj]
        constructor
        · rintro rfl
          exact ⟨fun j hj => ⟨l, (Option.some.inj hj).symm, hall⟩, rfl⟩
        · exact fun h => h.2.symm
      · rw [if_neg hl]
        constructor
        · exact fun h => absurd h (by simp)
        · rintro ⟨hargs, -⟩
          obtain ⟨m, hm, hall⟩ := hargs _ rfl
          cases hm
          exact absurd (all_isString.mpr hall) hl
    | _ => simp

theorem getField_bind {β : Type} {f : Option CStr → Option β} {b : β} :
    (getField obj k none >>= f) = some b ↔
      (∀ j, obj.objectGet k = some j → ∃ s, j = .string s) ∧ f (stringValue obj k) = some b := by
  rw [Option.bind_eq_bind, Option.bind_eq_some_iff]
  simp only [getField_eq_some, and_assoc, exists_and_left, exists_eq_left]

theorem getIntField_bind {β : Type} {f : ℤ → Option β} {b : β} {old : ℤ} :
    (getIntField obj k old >>= f) = some b ↔
      (∀ j, obj.objectGet k = some j → ∃ i, j = .int i) ∧ f (intValue obj k old) = some b := by
  rw [Option.bind_eq_bind, Option.bind_eq_some_iff]
  simp only [getIntField_eq_some, and_assoc, exists_and_left, exists_eq_left]

theorem scalarFields_eq_some : scalarFields obj = some cc ↔
    ScalarSchema obj ∧ cc = { described obj with ccCommand := none } := by
  unfold scalarFields
  simp only [childConfigNew, getField_bind]
  cases hname : stringValue obj "name" with
  | none =>
    constructor
    · rintro ⟨-, h⟩
      cases h
    · rintro ⟨⟨⟨s, hs⟩, -, -⟩, -⟩
      rw [stringValue, hs] at hname
      cases hname
  | some n =>
    have hbind : ∀ f : CStr → Option ChildConfig, (some n >>= f) = f n := fun _ => rfl
    have hgiven : ∃ s, obj.objectGet "name" = some (.string s) := by
      unfold stringValue at hname
      split at hname
      · exact ⟨_, ‹_›⟩
      · cases hname
    simp only [hbind, getField_bind, getIntField_bind]
    constructor
    · rintro ⟨-, hstdout, hstderr, hdir, hheartbeat, hfatal, husername, hgroupname, hinstances,
        hstatus, hkillsig, huid, hgid, herror, hage, hcc⟩
      refine ⟨⟨hgiven, ?_, ?_⟩, ?_⟩
      · simp only [stringKeys, List.forall_mem_cons]
        exact ⟨hstdout, hstderr, hdir, hheartbeat, hfatal, husername, hgroupname, by simp⟩
      · simp only [intKeys, List.forall_mem_cons]
        exact ⟨hinstances, hstatus, hkillsig, huid, hgid, herror, hage, by simp⟩
      · rw [← Option.some.inj hcc]
        simp only [described, hname]
        rfl
    · rintro ⟨⟨⟨s, hs⟩, hstrings, hints⟩, rfl⟩
      simp only [stringKeys, List.forall_mem_cons] at hstrings
      simp only [intKeys, List.forall_mem_cons] at hints
      obtain ⟨hstdout, hstderr, hdir, hheartbeat, hfatal, husername, hgroupname, -⟩ := hstrings
      obtain ⟨hinstances, hstatus, hkillsig, huid, hgid, herror, hage, -⟩ := hints
      refine ⟨fun j hj => ⟨s, ?_⟩, hstdout, hstderr, hdir, hheartbeat, hfatal, husername,
        hgroupname, hinstances, hstatus, hkillsig, huid, hgid, herror, hage, ?_⟩
      · exact (Option.some.inj (hs.symm.trans hj)).symm
      · simp only [described, hname]
        rfl

/-- The parser accepts the objects of the schema and takes their values. -/
theorem fromJson_eq_some : childConfigFromJson obj = some cc ↔ Schema obj ∧ cc = described obj := by
  rw [fromJson_scalars, Option.bind_eq_bind, Option.bind_eq_some_iff]
  constructor
  · rintro ⟨x, hx, h⟩
    obtain ⟨c, hc, h⟩ := Option.bind_eq_some_iff.mp h
    obtain ⟨hscalars, rfl⟩ := scalarFields_eq_some.mp hx
    obtain ⟨hargs, rfl⟩ := getCommand_eq_some.mp hc
    exact ⟨⟨hscalars, hargs⟩, (Option.some.inj h).symm⟩
  · rintro ⟨⟨hscalars, hargs⟩, rfl⟩
    refine ⟨_, scalarFields_eq_some.mpr ⟨hscalars, rfl⟩, ?_⟩
    rw [getCommand_eq_some.mpr ⟨hargs, rfl⟩]
    rfl

theorem childConfigFromJsonMem_eq_ok :
    childConfigFromJsonMem obj = .ok cc ↔ Schema obj ∧ cc = described obj := by
  rw [← fromJson_eq_some, ← childConfigFromJsonMem_toOption]
  cases childConfigFromJsonMem obj with
  | ok x => simp [Except.toOption]
  | error v => simp [Except.toOption]

/-- The other fields have their types, and the first element of `args` that is no string is not
`null` either. -/
def Dangling (obj : Json) : Prop :=
  ScalarSchema obj ∧ ∃ l j, obj.objectGet "args" = some (.array l) ∧
    l.find? (fun j => !isString j) = some j ∧ isNull j = false

/-- A vector is handed to `child_config_free` by the loop over `args` only. -/
theorem childConfigFromJsonMem_eq_error {v : ArgVector} :
    childConfigFromJsonMem obj = .error (some v) ↔ ScalarSchema obj ∧
      ∃ l, obj.objectGet "args" = some (.array l) ∧ ¬ l.all isString = true ∧
        v = (leadingStrings l).map ArgCell.str ++ restCells l := by
  have hfill : fillCommand obj = .error (some v) ↔ ∃ l, obj.objectGet "args" = some (.array l) ∧
      ¬ l.all isString = true ∧ v = (leadingStrings l).map ArgCell.str ++ restCells l := by
    unfold fillCommand
    cases obj.objectGet "args" with
    | none => simp
    | some j =>
      cases j with
      | array l =>
        have hfilled := fillArgs_filled l []
        simp only [List.length_nil, List.map_nil, List.nil_append] at hfilled
        dsimp only
        rw [hfilled]
        by_cases hl : l.all isString = true
        · rw [if_pos hl]
          constructor
          · exact fun h => absurd h (by simp)
          · rintro ⟨m, hm, hno, -⟩
            cases hm
            exact absurd hl hno
        · rw [if_neg hl]
          constructor
          · intro h
            cases h
            exact ⟨l, rfl, hl, rfl⟩
          · rintro ⟨m, hm, -, rfl⟩
            cases hm
            rfl
      | _ => simp
  rw [childConfigFromJsonMem_scalars, ← hfill]
  cases hs : scalarFields obj with
  | none =>
    constructor
    · exact fun h => absurd h (by simp [orFree, bind, Except.bind])
    · rintro ⟨hscalars, -⟩
      rw [scalarFields_eq_some.mpr ⟨hscalars, rfl⟩] at hs
      cases hs
  | some x =>
    have hscalars := (scalarFields_eq_some.mp hs).1
    rw [and_iff_right hscalars]
    cases fillCommand obj <;> simp [orFree, bind, Except.bind, pure, Except.pure]

/-- The parser accepts exactly the schema, and every rejection is clean, for all objects but
those whose `args` break off at an element that is neither a string nor `null`. -/
theorem parsing_clean_iff (l : List (Bytes × Json)) :
    ((∀ cc, childConfigFromJsonMem (.object l) = .ok cc ↔
        Schema (.object l) ∧ cc = described (.object l)) ∧
      ∀ v, childConfigFromJsonMem (.object l) = .error (some v) → walkAssigned v = true) ↔
    ¬ Dangling (.object l) := by
  rw [and_iff_right fun _ => childConfigFromJsonMem_eq_ok]
  simp only [childConfigFromJsonMem_eq_error]
  constructor
  · rintro hclean ⟨hscalars, args, j, hargs, hfind, hnull⟩
    have hbroken : ¬ args.all isString = true := by
      intro hall
      have hj := List.find?_some hfind
      rw [List.all_eq_true.mp hall j (List.mem_of_find?_eq_some hfind)] at hj
      cases hj
    have hwalk := hclean _ ⟨hscalars, args, hargs, hbroken, rfl⟩
    rw [walk_strings, walk_restCells] at hwalk
    rw [hwalk j hfind] at hnull
    cases hnull
  · rintro hsafe v ⟨hscalars, args, hargs, -, rfl⟩
    rw [walk_strings, walk_restCells]
    intro j hfind
    by_contra hnull
    exact hsafe ⟨hscalars, args, j, hargs, hfind, by simpa using hnull⟩

/-- A number among the arguments: the vector is walked although nothing was written to it. -/
theorem numberedArgs_unclean : ¬ ∀ l : List (Bytes × Json),
    (∀ cc, childConfigFromJsonMem (.object l) = .ok cc ↔
      Schema (.object l) ∧ cc = described (.object l)) ∧
    ∀ v, childConfigFromJsonMem (.object l) = .error (some v) → walkAssigned v = true := by
  intro h
  have hwalk := (h [(text "name", .string (text "web")), (text "args", .array [.int 1])]).2
    [.unset, .unset] rfl
  cases hwalk

end Acceptance

end UbervisorConfigParsing
