import CarbideOS.Agent.Lock

namespace CarbideOS.OperationLock
open Flock

/-- The threads of an agent and its descriptor table. -/
structure AgentGood (holder : Option Nat) (t : Table) (a : Agent) : Prop where
  files : ∀ tid fd, (a.threads tid).file = some fd →
    ∃ o, t fd = some ⟨some o, true⟩ ∧ ((a.threads tid).inside = true ↔ holder = some o)
  apart : ∀ tid tid' fd, (a.threads tid).file = some fd →
    (a.threads tid').file = some fd → tid = tid'
  used : ∀ fd o c, t fd = some ⟨some o, c⟩ → c = true ∧ ∃ tid, (a.threads tid).file = some fd
  operates : ∀ tid fd, a.threads tid = .operating fd → a.operationLockFd = some fd
  retains : ∀ tid fd d, a.threads tid = .retaining fd d → a.operationLockFd = some fd ∧ d = some fd

/-- The descriptors of the lock file that a child has. -/
def ChildGood (holder : Option Nat) (t : Table) : Role → Prop
  | .agent a => AgentGood holder t a
  | .mutating o d .forked => holder = some o ∧ ∃ fd, d = some fd ∧ t fd = some ⟨some o, true⟩ ∧
      ∀ fd' o' c, t fd' = some ⟨some o', c⟩ → c = true
  | .mutating o d .prepared => holder = some o ∧ ∃ fd, d = some fd ∧ t fd = some ⟨some o, false⟩ ∧
      ∀ fd' o' c, t fd' = some ⟨some o', c⟩ → c = true ∨ fd' = fd
  | .mutating o d .running => holder = some o ∧ ∃ fd, d = some fd ∧ t fd = some ⟨some o, false⟩ ∧
      ∀ fd' o' c, t fd' = some ⟨some o', c⟩ → fd' = fd
  | .readOnly .running => ∀ fd o c, t fd ≠ some ⟨some o, c⟩
  | .readOnly _ => ∀ fd o c, t fd = some ⟨some o, c⟩ → c = true

def Process.Good (holder : Option Nat) (p : Process) : Prop := ChildGood holder p.table p.role

def Process.IsAgent (p : Process) : Prop := ∃ a, p.role = .agent a

/-- What every machine keeps to, whether the lock is held for a reason or not. -/
structure Loose (m : Machine) : Prop where
  good : ∀ pid p, m.process pid = some p → p.Good m.holder
  bounded : ∀ pid p fd o c, m.process pid = some p → p.table fd = some ⟨some o, c⟩ →
    o < m.descriptions
  alone : ∀ pid pid' p p' fd fd' o c c', m.process pid = some p → m.process pid' = some p' →
    p.IsAgent → p'.IsAgent → p.table fd = some ⟨some o, c⟩ → p'.table fd' = some ⟨some o, c'⟩ →
      pid = pid' ∧ fd = fd'

/-- And the lock is held by an open description only. -/
structure Sound (m : Machine) : Prop extends Loose m where
  held : ∀ o, m.holder = some o → Copied m.tables o

section
variable {m : Machine} {holder : Option Nat} {t : Table} {a : Agent} {p : Process}
  {pid tid fd o : Nat}

/-- A process that needs the lock held has its description open. -/
theorem Process.Good.released (good : p.Good (some o)) (gone : ¬ p.table.Has o) : p.Good none := by
  obtain ⟨t, role⟩ := p
  have absent : ∀ fd c, t fd ≠ some ⟨some o, c⟩ := fun fd c there => gone ⟨fd, c, there⟩
  cases role with
  | agent a =>
    have good : AgentGood (some o) t a := good
    refine ⟨fun tid fd file => ?_, good.apart, good.used, good.operates, good.retains⟩
    obtain ⟨o', there, inside⟩ := good.files tid fd file
    refine ⟨o', there, fun h => ?_, nofun⟩
    obtain rfl := Option.some.inj (inside.mp h)
    exact absurd there (absent fd true)
  | mutating o' d stage =>
    cases stage with
    | forked =>
      obtain ⟨same, fd, -, there, -⟩ := good
      obtain rfl := Option.some.inj same
      exact absurd there (absent fd true)
    | prepared =>
      obtain ⟨same, fd, -, there, -⟩ := good
      obtain rfl := Option.some.inj same
      exact absurd there (absent fd false)
    | running =>
      obtain ⟨same, fd, -, there, -⟩ := good
      obtain rfl := Option.some.inj same
      exact absurd there (absent fd false)
  | readOnly stage => cases stage <;> exact good

theorem Loose.settle (h : Loose m) : Sound m.settle := by
  have kept : ∀ o, m.settle.holder = some o → m.holder = some o ∧ Copied m.tables o :=
    fun o settled => holderAfter_eq_some.mp settled
  refine ⟨⟨fun pid p alive => ?_, h.bounded, h.alone⟩, fun o held => (kept o held).2⟩
  have alive : m.process pid = some p := alive
  have good := h.good pid p alive
  cases settled : m.settle.holder with
  | some o =>
    rw [← (kept o settled).1]
    exact good
  | none =>
    cases before : m.holder with
    | none =>
      rw [before] at good
      exact good
    | some o =>
      rw [before] at good
      refine good.released fun there => ?_
      have open' : Copied m.tables o := ⟨pid, p.table, by rw [Machine.tables, alive]; rfl, there⟩
      have still : m.settle.holder = some o := holderAfter_eq_some.mpr ⟨before, open'⟩
      rw [settled] at still
      cases still

theorem put_self (m : Machine) (pid : Nat) (p : Process) : (m.put pid p).process pid = some p := by
  simp [Machine.put]

theorem put_other {pid' : Nat} (p : Process) (h : pid' ≠ pid) :
    (m.put pid p).process pid' = m.process pid' := by
  simp [Machine.put, h]

theorem put_cases {pid' : Nat} {q : Process} (there : (m.put pid p).process pid' = some q) :
    pid' = pid ∧ q = p ∨ pid' ≠ pid ∧ m.process pid' = some q := by
  by_cases same : pid' = pid
  · subst same
    rw [put_self] at there
    exact Or.inl ⟨rfl, (Option.some.inj there).symm⟩
  · rw [put_other p same] at there
    exact Or.inr ⟨same, there⟩

/-- The descriptions of an agent are its own, one descriptor each. -/
def Owns (m : Machine) (pid : Nat) (p : Process) : Prop :=
  p.IsAgent → ∀ fd o c, p.table fd = some ⟨some o, c⟩ →
    (∀ fd' c', p.table fd' = some ⟨some o, c'⟩ → fd = fd') ∧
      ∀ pid' q fd' c', pid' ≠ pid → m.process pid' = some q → q.IsAgent →
        q.table fd' ≠ some ⟨some o, c'⟩

theorem owns_of_inherits (h : Loose m)
    (inherits : p.IsAgent → ∀ fd o c, p.table fd = some ⟨some o, c⟩ →
      ∃ q c', m.process pid = some q ∧ q.IsAgent ∧ q.table fd = some ⟨some o, c'⟩) :
    Owns m pid p := by
  intro agent fd o c there
  obtain ⟨q, c', alive, agent', there'⟩ := inherits agent fd o c there
  refine ⟨fun fd₂ c₂ there₂ => ?_, fun pid₂ q₂ fd₂ c₂ other alive₂ agent₂ there₂ => ?_⟩
  · obtain ⟨q₂, c₂', alive₂, agent₂, there₂'⟩ := inherits agent fd₂ o c₂ there₂
    exact (h.alone pid pid q q₂ fd fd₂ o c' c₂' alive alive₂ agent' agent₂ there' there₂').2
  · exact other
      (h.alone pid pid₂ q q₂ fd fd₂ o c' c₂ alive alive₂ agent' agent₂ there' there₂).1.symm

/-- One process changes, and perhaps who holds the lock. -/
theorem Loose.change (h : Loose m)
    (others : ∀ pid' q, pid' ≠ pid → m.process pid' = some q → q.Good holder)
    (good : p.Good holder)
    (bounded : ∀ fd o c, p.table fd = some ⟨some o, c⟩ → o < m.descriptions)
    (owns : Owns m pid p) : Loose { m.put pid p with holder := holder } := by
  refine ⟨fun pid' q alive => ?_, fun pid' q fd o c alive there => ?_,
    fun pid₁ pid₂ q₁ q₂ fd₁ fd₂ o c₁ c₂ alive₁ alive₂ agent₁ agent₂ there₁ there₂ => ?_⟩
  · rcases put_cases alive with ⟨-, rfl⟩ | ⟨other, alive⟩
    · exact good
    · exact others pid' q other alive
  · rcases put_cases alive with ⟨-, rfl⟩ | ⟨-, alive⟩
    · exact bounded fd o c there
    · exact h.bounded pid' q fd o c alive there
  · rcases put_cases alive₁ with ⟨rfl, rfl⟩ | ⟨other₁, was₁⟩
    · rcases put_cases alive₂ with ⟨rfl, rfl⟩ | ⟨other₂, was₂⟩
      · exact ⟨rfl, (owns agent₁ fd₁ o c₁ there₁).1 fd₂ c₂ there₂⟩
      · exact absurd there₂ ((owns agent₁ fd₁ o c₁ there₁).2 pid₂ q₂ fd₂ c₂ other₂ was₂ agent₂)
    · rcases put_cases alive₂ with ⟨rfl, rfl⟩ | ⟨other₂, was₂⟩
      · exact absurd there₁ ((owns agent₂ fd₂ o c₂ there₂).2 pid₁ q₁ fd₁ c₁ other₁ was₁ agent₁)
      · exact h.alone pid₁ pid₂ q₁ q₂ fd₁ fd₂ o c₁ c₂ was₁ was₂ agent₁ agent₂ there₁ there₂

theorem Loose.put (h : Loose m) (good : p.Good m.holder)
    (bounded : ∀ fd o c, p.table fd = some ⟨some o, c⟩ → o < m.descriptions)
    (owns : Owns m pid p) : Loose (m.put pid p) :=
  h.change (fun pid' q _ alive => h.good pid' q alive) good bounded owns

/-- A description stays open where no process loses it. -/
theorem copied_put (h : Copied m.tables o)
    (keeps : ∀ q, m.process pid = some q → q.table.Has o → p.table.Has o) :
    Copied (m.put pid p).tables o := by
  obtain ⟨pid', t, there, has⟩ := h
  by_cases same : pid' = pid
  · subst same
    refine ⟨pid', p.table, ?_, ?_⟩
    · rw [Machine.tables, put_self]
      rfl
    · obtain ⟨q, alive, rfl⟩ := Option.map_eq_some_iff.mp there
      exact keeps q alive has
  · refine ⟨pid', t, ?_, has⟩
    rw [Machine.tables, put_other p same]
    exact there

theorem Sound.put (h : Sound m) (good : p.Good m.holder)
    (bounded : ∀ fd o c, p.table fd = some ⟨some o, c⟩ → o < m.descriptions)
    (owns : Owns m pid p)
    (keeps : ∀ q o, m.process pid = some q → q.table.Has o → p.table.Has o) :
    Sound (m.put pid p) :=
  ⟨h.toLoose.put good bounded owns, fun o held => copied_put (h.held o held) (keeps · o)⟩

/-- A process that is gone leaves the others as they are. -/
theorem Loose.remove (h : Loose m) (pid : Nat) : Loose (m.remove pid) := by
  have alive' : ∀ {pid' q}, (m.remove pid).process pid' = some q → m.process pid' = some q := by
    intro pid' q there
    by_cases same : pid' = pid
    · simp [Machine.remove, same] at there
    · simpa [Machine.remove, same] using there
  exact ⟨fun pid' q alive => h.good pid' q (alive' alive),
    fun pid' q fd o c alive => h.bounded pid' q fd o c (alive' alive),
    fun pid₁ pid₂ q₁ q₂ fd₁ fd₂ o c₁ c₂ alive₁ alive₂ =>
      h.alone pid₁ pid₂ q₁ q₂ fd₁ fd₂ o c₁ c₂ (alive' alive₁) (alive' alive₂)⟩

theorem at_self (a : Agent) (tid : Nat) (x : Thread) : (a.at tid x).threads tid = x := by
  simp [Agent.at]

theorem at_other {tid' : Nat} (x : Thread) (h : tid' ≠ tid) :
    (a.at tid x).threads tid' = a.threads tid' := by
  simp [Agent.at, h]

section
variable (sound : Loose m) (alive : m.process pid = some ⟨t, .agent a⟩)
include sound alive

/-- A descriptor of the lock file is one thread's. -/
theorem thread_unique {tid' fd fd' o : Nat} {c c' : Bool} (file : (a.threads tid).file = some fd)
    (file' : (a.threads tid').file = some fd') (there : t fd = some ⟨some o, c⟩)
    (there' : t fd' = some ⟨some o, c'⟩) : tid = tid' := by
  have good : AgentGood m.holder t a := sound.good pid _ alive
  obtain rfl := (sound.alone pid pid _ _ fd fd' o c c' alive alive ⟨a, rfl⟩ ⟨a, rfl⟩ there there').2
  exact good.apart tid tid' fd file file'

theorem inside_file (inside : (a.threads tid).inside = true) :
    ∃ fd o, (a.threads tid).file = some fd ∧ t fd = some ⟨some o, true⟩ ∧ m.holder = some o := by
  have good : AgentGood m.holder t a := sound.good pid _ alive
  cases file : (a.threads tid).file with
  | none =>
    cases thread : a.threads tid <;> rw [thread] at file inside
    case idle => cases inside
    all_goals cases file
  | some fd =>
    obtain ⟨o, there, held⟩ := good.files tid fd file
    exact ⟨fd, o, rfl, there, held.mp inside⟩

theorem only_inside {tid' : Nat} (inside : (a.threads tid).inside = true) (other : tid' ≠ tid) :
    (a.threads tid').inside = false := by
  by_contra inside'
  rw [Bool.not_eq_false] at inside'
  obtain ⟨fd, o, file, there, held⟩ := inside_file sound alive inside
  obtain ⟨fd', o', file', there', held'⟩ := inside_file sound alive inside'
  obtain rfl := Option.some.inj (held.symm.trans held')
  exact other (thread_unique sound alive file' file there' there)

/-- The thread that is inside moves on, and the variable with it. -/
theorem AgentGood.move {x : Thread} {lockFd : Option Nat} (inside : (a.threads tid).inside = true)
    (file : x.file = (a.threads tid).file) (stays : x.inside = true)
    (operates : ∀ fd, x = .operating fd → lockFd = some fd)
    (retains : ∀ fd d, x = .retaining fd d → lockFd = some fd ∧ d = some fd) :
    AgentGood m.holder t { a.at tid x with operationLockFd := lockFd } := by
  have good : AgentGood m.holder t a := sound.good pid _ alive
  have files : ∀ tid', ((a.at tid x).threads tid').file = (a.threads tid').file := by
    intro tid'
    by_cases same : tid' = tid
    · subst same
      rw [at_self, file]
    · rw [at_other x same]
  have insides : ∀ tid', ((a.at tid x).threads tid').inside = (a.threads tid').inside := by
    intro tid'
    by_cases same : tid' = tid
    · subst same
      rw [at_self, stays, inside]
    · rw [at_other x same]
  have others : ∀ tid', tid' ≠ tid → ((a.at tid x).threads tid').inside = false := fun tid' other =>
    (insides tid').trans (only_inside sound alive inside other)
  refine ⟨fun tid' fd h => ?_, fun tid₁ tid₂ fd h₁ h₂ => ?_, fun fd o c there => ?_,
    fun tid' fd h => ?_, fun tid' fd d h => ?_⟩
  · obtain ⟨o, there, held⟩ := good.files tid' fd ((files tid').symm.trans h)
    exact ⟨o, there, by rw [← held]; exact Bool.eq_iff_iff.mp (insides tid')⟩
  · exact good.apart tid₁ tid₂ fd ((files tid₁).symm.trans h₁) ((files tid₂).symm.trans h₂)
  · obtain ⟨closes, tid', user⟩ := good.used fd o c there
    exact ⟨closes, tid', (files tid').trans user⟩
  · have h : (a.at tid x).threads tid' = .operating fd := h
    by_cases same : tid' = tid
    · subst same
      rw [at_self] at h
      exact operates fd h
    · have out := others tid' same
      rw [h] at out
      cases out
  · have h : (a.at tid x).threads tid' = .retaining fd d := h
    by_cases same : tid' = tid
    · subst same
      rw [at_self] at h
      exact retains fd d h
    · have out := others tid' same
      rw [h] at out
      cases out

/-- A thread closes its lock file. -/
theorem AgentGood.leave {fd : Nat} (file : (a.threads tid).file = some fd) :
    AgentGood m.holder (t.close fd) (a.at tid .idle) := by
  have good : AgentGood m.holder t a := sound.good pid _ alive
  have others : ∀ {tid' fd'}, ((a.at tid .idle).threads tid').file = some fd' →
      tid' ≠ tid ∧ (a.at tid .idle).threads tid' = a.threads tid' ∧ fd' ≠ fd := by
    intro tid' fd' h
    have other : tid' ≠ tid := by
      rintro rfl
      rw [at_self] at h
      cases h
    have same := at_other (a := a) .idle other
    rw [same] at h
    refine ⟨other, same, ?_⟩
    rintro rfl
    exact other (good.apart tid' tid fd' h file)
  refine ⟨fun tid' fd' h => ?_, fun tid₁ tid₂ fd' h₁ h₂ => ?_, fun fd' o c there => ?_,
    fun tid' fd' h => ?_, fun tid' fd' d h => ?_⟩
  · obtain ⟨-, same, apart⟩ := others h
    rw [same] at h ⊢
    obtain ⟨o, there, held⟩ := good.files tid' fd' h
    exact ⟨o, Table.close_eq.mpr ⟨apart, there⟩, held⟩
  · rw [(others h₁).2.1] at h₁
    rw [(others h₂).2.1] at h₂
    exact good.apart tid₁ tid₂ fd' h₁ h₂
  · obtain ⟨apart, there⟩ := Table.close_eq.mp there
    obtain ⟨closes, tid', user⟩ := good.used fd' o c there
    refine ⟨closes, tid', ?_⟩
    rw [at_other]
    · exact user
    · rintro rfl
      exact apart (Option.some.inj (user.symm.trans file))
  · have same := (@others tid' fd' (by rw [h]; rfl)).2.1
    exact good.operates tid' fd' (same.symm.trans h)
  · have same := (@others tid' fd' (by rw [h]; rfl)).2.1
    exact good.retains tid' fd' d (same.symm.trans h)

end

theorem child_of_agent (sound : Loose m) (alive : m.process pid = some ⟨t, .agent a⟩) :
    ∀ fd o c, t fd = some ⟨some o, c⟩ → c = true := fun fd o c there =>
  ((sound.good pid _ alive : AgentGood m.holder t a).used fd o c there).1

theorem bounded_table (sound : Loose m) {role : Role} (alive : m.process pid = some ⟨t, role⟩) :
    ∀ fd o c, t fd = some ⟨some o, c⟩ → o < m.descriptions :=
  fun fd o c there => sound.bounded pid _ fd o c alive there

/-- The owner of a table that only lost descriptors of the lock file, or none. -/
theorem owns_of_subset (sound : Loose m) (alive : m.process pid = some ⟨t, .agent a⟩)
    (subset : ∀ fd o c, p.table fd = some ⟨some o, c⟩ → t fd = some ⟨some o, c⟩) : Owns m pid p :=
  owns_of_inherits sound fun _ fd o c there =>
    ⟨⟨t, .agent a⟩, c, alive, ⟨a, rfl⟩, subset fd o c there⟩

theorem owns_of_child (h : ∀ a, p.role ≠ .agent a) : Owns m pid p := fun agent => by
  obtain ⟨a, role⟩ := agent
  exact absurd role (h a)

/-- The inside thread moves on. -/
theorem Sound.move (sound : Sound m) (alive : m.process pid = some ⟨t, .agent a⟩) {x : Thread}
    {lockFd : Option Nat} (inside : (a.threads tid).inside = true)
    (file : x.file = (a.threads tid).file) (stays : x.inside = true)
    (operates : ∀ fd, x = .operating fd → lockFd = some fd)
    (retains : ∀ fd d, x = .retaining fd d → lockFd = some fd ∧ d = some fd) :
    Sound (m.put pid ⟨t, .agent { a.at tid x with operationLockFd := lockFd }⟩) := by
  refine sound.put (AgentGood.move sound.toLoose alive inside file stays operates retains)
    (bounded_table sound.toLoose alive) (owns_of_subset sound.toLoose alive fun _ _ _ => id)
    fun q o there has => ?_
  rw [alive] at there
  cases there
  exact has

/-- A child starts with the descriptors of its parent. -/
theorem Sound.fork (sound : Sound m) (alive : m.process pid = some ⟨t, .agent a⟩) {child : Nat}
    {role : Role} (unused : m.process child = none) (good : ChildGood m.holder t role)
    (isChild : ∀ a, role ≠ .agent a) : Sound (m.put child ⟨t, role⟩) := by
  refine sound.put good (bounded_table sound.toLoose alive) (owns_of_child isChild)
    fun q o there => ?_
  rw [unused] at there
  cases there

/-- An agent's table loses descriptors, of the lock file or not. -/
theorem Sound.leave (sound : Sound m) (alive : m.process pid = some ⟨t, .agent a⟩) {fd : Nat}
    (file : (a.threads tid).file = some fd) :
    Sound (m.put pid ⟨t.close fd, .agent (a.at tid .idle)⟩).settle := by
  refine (sound.toLoose.put (p := ⟨t.close fd, .agent (a.at tid .idle)⟩)
    (AgentGood.leave sound.toLoose alive file) ?_ ?_).settle
  · intro fd' o c there
    exact sound.bounded pid _ fd' o c alive (Table.close_eq.mp there).2
  · exact owns_of_subset sound.toLoose alive fun fd' o c there => (Table.close_eq.mp there).2

/-- A child replaces its program, and loses what is marked. -/
theorem Sound.exec (sound : Sound m) {role role' : Role} (alive : m.process pid = some ⟨t, role⟩)
    (good : ChildGood m.holder t.exec role') (isChild : ∀ a, role' ≠ .agent a) :
    Sound (m.put pid ⟨t.exec, role'⟩).settle := by
  refine (sound.toLoose.put (p := ⟨t.exec, role'⟩) good ?_ (owns_of_child isChild)).settle
  intro fd o c there
  exact sound.bounded pid _ fd o c alive (Table.exec_eq.mp there).1

theorem Sound.grant (sound : Sound m) (alive : m.process pid = some ⟨t, .agent a⟩) {fd : Nat}
    {c : Bool} (thread : a.threads tid = .opened fd) (refers : t fd = some ⟨some o, c⟩)
    (free : m.holder = none) :
    Sound { m.put pid ⟨t, .agent (a.at tid (.granted fd))⟩ with holder := some o } := by
  have good : AgentGood m.holder t a := sound.good pid _ alive
  have waiting : (a.threads tid).file = some fd := by rw [thread]; rfl
  obtain ⟨rfl, -⟩ := good.used fd o c refers
  refine ⟨sound.toLoose.change (fun pid' q other there => ?_) ?_ (bounded_table sound.toLoose alive)
    (owns_of_subset sound.toLoose alive fun _ _ _ => id), fun o' held => ?_⟩
  · -- no other process has anything to do with the description that is granted
    have good' : q.Good m.holder := sound.good pid' q there
    obtain ⟨t', role⟩ := q
    rw [free] at good'
    cases role with
    | agent a' =>
      have good' : AgentGood none t' a' := good'
      refine ⟨fun tid' fd' file => ?_, good'.apart, good'.used, good'.operates, good'.retains⟩
      obtain ⟨o', there', inside⟩ := good'.files tid' fd' file
      refine ⟨o', there', fun h => absurd (inside.mp h) (by simp), fun h => ?_⟩
      obtain rfl := Option.some.inj h
      exact absurd (sound.alone pid pid' _ _ fd fd' o true true alive there ⟨a, rfl⟩ ⟨a', rfl⟩
        refers there').1.symm other
    | mutating o' d stage =>
      cases stage <;> exact absurd good'.1 (by simp)
    | readOnly stage => cases stage <;> exact good'
  · have granted : ∀ tid' fd', ((a.at tid (.granted fd)).threads tid').file = some fd' →
        (a.threads tid').file = some fd' := by
      intro tid' fd' h
      by_cases same : tid' = tid
      · subst same
        rw [at_self] at h
        exact waiting.trans h
      · rw [at_other _ same] at h
        exact h
    have out : ∀ tid', tid' ≠ tid → (a.threads tid').inside = false := by
      intro tid' _
      by_contra inside
      rw [Bool.not_eq_false] at inside
      obtain ⟨_, _, -, -, held⟩ := inside_file sound.toLoose alive inside
      rw [free] at held
      cases held
    have others : ∀ tid' x, tid' ≠ tid → (a.at tid (.granted fd)).threads tid' = x →
        x.inside = false := by
      intro tid' x other h
      rw [at_other _ other] at h
      rw [← h]
      exact out tid' other
    refine ⟨fun tid' fd' h => ?_, fun tid₁ tid₂ fd' h₁ h₂ => ?_, fun fd' o' c there => ?_,
      fun tid' fd' h => ?_, fun tid' fd' d h => ?_⟩
    · obtain ⟨o', there, -⟩ := good.files tid' fd' (granted tid' fd' h)
      refine ⟨o', there, ?_⟩
      by_cases same : tid' = tid
      · subst same
        rw [at_self]
        obtain rfl : fd = fd' := Option.some.inj (waiting.symm.trans (granted tid' fd' h))
        rw [refers] at there
        cases there
        exact ⟨fun _ => rfl, fun _ => rfl⟩
      · rw [others tid' _ same rfl]
        refine ⟨nofun, fun held => ?_⟩
        obtain rfl := Option.some.inj held
        exact absurd (thread_unique sound.toLoose alive
          (granted tid' fd' h) waiting there refers) same
    · exact good.apart tid₁ tid₂ fd' (granted tid₁ fd' h₁) (granted tid₂ fd' h₂)
    · obtain ⟨closes, tid', user⟩ := good.used fd' o' c there
      refine ⟨closes, tid', ?_⟩
      by_cases same : tid' = tid
      · subst same
        rw [at_self]
        exact waiting.symm.trans user
      · rw [at_other _ same]
        exact user
    · by_cases same : tid' = tid
      · subst same
        rw [at_self] at h
        cases h
      · cases others tid' _ same h
    · by_cases same : tid' = tid
      · subst same
        rw [at_self] at h
        cases h
      · cases others tid' _ same h
  · obtain rfl := Option.some.inj held
    refine ⟨pid, t, ?_, fd, true, refers⟩
    change ((m.put pid _).process pid).map Process.table = some t
    rw [put_self]
    rfl

theorem Sound.start (sound : Sound m) (unused : m.process pid = none) :
    Sound (m.put pid ⟨Table.empty, .agent {}⟩) := by
  have nothing : ∀ fd d, Table.empty fd ≠ some d := nofun
  refine sound.put ?_ (fun fd o c there => absurd there (nothing fd _))
    (fun _ fd o c there => absurd there (nothing fd _)) fun q o there => ?_
  · refine ⟨fun tid fd file => ?_, fun tid tid' fd file => ?_, fun fd o c there => ?_, ?_, ?_⟩
    · cases file
    · cases file
    · exact absurd there (nothing fd _)
    · nofun
    · nofun
  · rw [unused] at there
    cases there

/-- An open of the lock file makes a new description. -/
theorem Sound.openLock (sound : Sound m) (alive : m.process pid = some ⟨t, .agent a⟩) {fd : Nat}
    (thread : a.threads tid = .idle) (unused : t fd = none) :
    Sound { m.put pid ⟨t.install fd ⟨some m.descriptions, true⟩,
      .agent (a.at tid (.opened fd))⟩ with
      descriptions := m.descriptions + 1 } := by
  have good : AgentGood m.holder t a := sound.good pid _ alive
  have counted : Sound { m with descriptions := m.descriptions + 1 } :=
    ⟨⟨sound.good, fun pid' q fd' o c there h =>
      Nat.lt_succ_of_lt (sound.bounded pid' q fd' o c there h),
      sound.alone⟩, sound.held⟩
  have new : ∀ pid' q fd' c, m.process pid' = some q →
      q.table fd' ≠ some ⟨some m.descriptions, c⟩ :=
    fun pid' q fd' c there h => absurd (sound.bounded pid' q fd' _ c there h) (Nat.lt_irrefl _)
  have unheld : m.holder ≠ some m.descriptions := by
    intro held
    obtain ⟨pid', t', there, fd', c, has⟩ := sound.held _ held
    obtain ⟨q, there', rfl⟩ := Option.map_eq_some_iff.mp there
    exact new pid' q fd' c there' has
  have older : ∀ {fd' d}, t fd' = some d →
      t.install fd ⟨some m.descriptions, true⟩ fd' = some d := by
    intro fd' d there
    refine Table.install_eq.mpr (Or.inr ⟨?_, there⟩)
    rintro rfl
    rw [unused] at there
    cases there
  have busy : ∀ {tid' fd'}, (a.threads tid').file = some fd' → tid' ≠ tid ∧ fd' ≠ fd := by
    intro tid' fd' file
    refine ⟨?_, ?_⟩
    · rintro rfl
      rw [thread] at file
      cases file
    · rintro rfl
      obtain ⟨o, there, -⟩ := good.files tid' fd' file
      rw [unused] at there
      cases there
  have before : ∀ {tid' fd'}, ((a.at tid (.opened fd)).threads tid').file = some fd' →
      tid' = tid ∧ fd' = fd ∨ (a.at tid (.opened fd)).threads tid' = a.threads tid' ∧
        (a.threads tid').file = some fd' := by
    intro tid' fd' file
    by_cases same : tid' = tid
    · subst same
      rw [at_self] at file
      exact Or.inl ⟨rfl, (Option.some.inj file).symm⟩
    · rw [at_other _ same] at file
      exact Or.inr ⟨at_other _ same, file⟩
  refine counted.put (p := ⟨_, .agent (a.at tid (.opened fd))⟩) ⟨fun tid' fd' file => ?_,
    fun tid₁ tid₂ fd' file₁ file₂ => ?_, fun fd' o c there => ?_, fun tid' fd' h => ?_,
    fun tid' fd' d h => ?_⟩ (fun fd' o c there => ?_) (fun _ fd' o c there =>
      ⟨fun fd₂ c₂ there₂ => ?_,
      fun pid₂ q₂ fd₂ c₂ other alive₂ agent₂ there₂ => ?_⟩) fun q o there has => ?_
  · rcases before file with ⟨rfl, rfl⟩ | ⟨same, file⟩
    · refine ⟨m.descriptions, Table.install_eq.mpr (Or.inl ⟨rfl, rfl⟩), ?_⟩
      rw [at_self]
      exact ⟨nofun, fun held => absurd held unheld⟩
    · obtain ⟨o, there, held⟩ := good.files tid' fd' file
      exact ⟨o, older there, same ▸ held⟩
  · rcases before file₁ with ⟨this₁, new₁⟩ | ⟨-, was₁⟩
    · rcases before file₂ with ⟨this₂, -⟩ | ⟨-, was₂⟩
      · exact this₁.trans this₂.symm
      · exact absurd new₁ (busy was₂).2
    · rcases before file₂ with ⟨-, new₂⟩ | ⟨-, was₂⟩
      · exact absurd new₂ (busy was₁).2
      · exact good.apart tid₁ tid₂ fd' was₁ was₂
  · rcases Table.install_eq.mp there with ⟨rfl, same⟩ | ⟨-, there⟩
    · cases same
      exact ⟨rfl, tid, by rw [at_self]; rfl⟩
    · obtain ⟨closes, tid', user⟩ := good.used fd' o c there
      exact ⟨closes, tid', by rw [at_other _ (busy user).1]; exact user⟩
  · rcases @before tid' fd' (by rw [h]; rfl) with ⟨rfl, -⟩ | ⟨same, -⟩
    · rw [at_self] at h
      cases h
    · exact good.operates tid' fd' (same.symm.trans h)
  · rcases @before tid' fd' (by rw [h]; rfl) with ⟨rfl, -⟩ | ⟨same, -⟩
    · rw [at_self] at h
      cases h
    · exact good.retains tid' fd' d (same.symm.trans h)
  · rcases Table.install_eq.mp there with ⟨rfl, same⟩ | ⟨-, there⟩
    · cases same
      exact Nat.lt_succ_self _
    · exact counted.bounded pid _ fd' o c alive there
  · rcases Table.install_eq.mp there with ⟨rfl, new₁⟩ | ⟨-, was₁⟩
    · cases new₁
      rcases Table.install_eq.mp there₂ with ⟨rfl, -⟩ | ⟨-, was₂⟩
      · rfl
      · exact absurd was₂ (new pid ⟨t, .agent a⟩ fd₂ c₂ alive)
    · rcases Table.install_eq.mp there₂ with ⟨rfl, new₂⟩ | ⟨-, was₂⟩
      · cases new₂
        exact absurd was₁ (new pid ⟨t, .agent a⟩ fd' c alive)
      · exact (sound.alone pid pid _ _ fd' fd₂ o c c₂ alive alive ⟨a, rfl⟩ ⟨a, rfl⟩ was₁ was₂).2
  · rcases Table.install_eq.mp there with ⟨rfl, same⟩ | ⟨-, there⟩
    · cases same
      exact new pid₂ q₂ fd₂ c₂ alive₂ there₂
    · exact other (sound.alone pid pid₂ _ q₂ fd' fd₂ o c c₂ alive alive₂ ⟨a, rfl⟩ agent₂ there
        there₂).1.symm
  · have there : m.process pid = some q := there
    rw [alive] at there
    cases there
    obtain ⟨fd', c, has⟩ := has
    exact ⟨fd', c, older has⟩

/-- Other files come and go. -/
theorem Sound.otherFiles (sound : Sound m) (alive : m.process pid = some ⟨t, .agent a⟩) {t' : Table}
    (same : ∀ fd o c, t' fd = some ⟨some o, c⟩ ↔ t fd = some ⟨some o, c⟩) :
    Sound (m.put pid ⟨t', .agent a⟩) := by
  have good : AgentGood m.holder t a := sound.good pid _ alive
  refine sound.put (p := ⟨t', .agent a⟩) ⟨fun tid fd file => ?_, good.apart, fun fd o c there => ?_,
    good.operates, good.retains⟩ (fun fd o c there => ?_)
    (owns_of_subset sound.toLoose alive fun fd o c => (same fd o c).mp) fun q o there has => ?_
  · obtain ⟨o, there, held⟩ := good.files tid fd file
    exact ⟨o, (same fd o true).mpr there, held⟩
  · exact good.used fd o c ((same fd o c).mp there)
  · exact sound.bounded pid _ fd o c alive ((same fd o c).mp there)
  · rw [alive] at there
    cases there
    obtain ⟨fd, c, has⟩ := has
    exact ⟨fd, c, (same fd o c).mpr has⟩

/-- The hook keeps the lock across exec. -/
theorem Sound.prepare (sound : Sound m) {fd : Nat} {d : Descriptor}
    (alive : m.process pid = some ⟨t, .mutating o (some fd) .forked⟩) (refers : t fd = some d) :
    Sound (m.put pid ⟨t.install fd { d with closeOnExec := false },
      .mutating o (some fd) .prepared⟩) := by
  obtain ⟨held, fd', same, there, marked⟩ := sound.good pid _ alive
  obtain rfl := Option.some.inj same
  have there : t fd = some ⟨some o, true⟩ := there
  rw [refers] at there
  obtain rfl := Option.some.inj there
  refine sound.put (p := ⟨_, .mutating o (some fd) .prepared⟩) ⟨held, fd, rfl,
    Table.install_eq.mpr (Or.inl ⟨rfl, rfl⟩), fun fd' o' c there => ?_⟩ (fun fd' o' c there => ?_)
    (owns_of_child nofun) fun q o' there has => ?_
  · rcases Table.install_eq.mp there with ⟨same, -⟩ | ⟨-, there⟩
    · exact Or.inr same
    · exact Or.inl (marked fd' o' c there)
  · rcases Table.install_eq.mp there with ⟨rfl, entry⟩ | ⟨-, there⟩
    · have named : o' = o := Option.some.inj (Descriptor.mk.inj entry).1
      rw [named]
      exact sound.bounded pid _ fd' o true alive refers
    · exact sound.bounded pid _ fd' o' c alive there
  · rw [alive] at there
    cases there
    obtain ⟨fd', c, has⟩ := has
    by_cases same : fd' = fd
    · subst same
      have has : t fd' = some ⟨some o', c⟩ := has
      rw [refers] at has
      cases has
      exact ⟨fd', false, Table.install_eq.mpr (Or.inl ⟨rfl, rfl⟩)⟩
    · exact ⟨fd', c, Table.install_eq.mpr (Or.inr ⟨same, has⟩)⟩

theorem Sound.step {m' : Machine} (sound : Sound m) (s : Step m m') : Sound m' := by
  cases s with
  | start unused => exact sound.start unused
  | openLock alive thread unused => exact sound.openLock alive thread unused
  | grant alive thread refers free => exact sound.grant alive thread refers free
  | giveUp alive thread => exact sound.leave alive (by rw [thread]; rfl)
  | own alive thread =>
    refine sound.move alive (by rw [thread]; rfl) (by rw [thread]; rfl) rfl (fun fd h => ?_) nofun
    cases h
    rfl
  | @retain pid tid fd t a alive thread =>
    have good : AgentGood m.holder t a := sound.good pid _ alive
    have stored := good.operates tid fd thread
    refine sound.move alive (by rw [thread]; rfl) (by rw [thread]; rfl) rfl nofun fun fd' d h => ?_
    cases h
    exact ⟨stored, stored⟩
  | @forkMutating pid tid fd o child c d t a alive thread refers unused =>
    have good : AgentGood m.holder t a := sound.good pid _ alive
    obtain ⟨stored, retained⟩ := good.retains tid fd d thread
    obtain ⟨o', there, held⟩ := good.files tid fd (by rw [thread]; rfl)
    rw [refers] at there
    cases there
    have back : Sound (m.put pid ⟨t, .agent (a.at tid (.operating fd))⟩) := by
      refine sound.move alive (by rw [thread]; rfl) (by rw [thread]; rfl) rfl
        (fun fd' h => ?_) nofun
      cases h
      exact stored
    have other : child ≠ pid := by
      rintro rfl
      rw [unused] at alive
      cases alive
    refine back.fork (put_self m pid _) ((put_other _ other).trans unused) ?_ nofun
    exact ⟨held.mp (by rw [thread]; rfl), fd, retained, refers,
      child_of_agent sound.toLoose alive⟩
  | forkReadOnly alive unused =>
    exact sound.fork alive unused (child_of_agent sound.toLoose alive) nofun
  | @openOther pid fd c t a alive unused =>
    refine sound.otherFiles alive fun fd' o c' => ?_
    rw [Table.install_eq]
    refine ⟨fun h => ?_, fun there => Or.inr ⟨?_, there⟩⟩
    · rcases h with ⟨-, same⟩ | ⟨-, there⟩
      · cases same
      · exact there
    · rintro rfl
      rw [unused] at there
      cases there
  | @closeOther pid fd c t a alive refers =>
    refine sound.otherFiles alive fun fd' o c' => ?_
    rw [Table.close_eq]
    refine ⟨fun h => h.2, fun there => ⟨?_, there⟩⟩
    rintro rfl
    rw [refers] at there
    cases there
  | prepare alive refers => exact sound.prepare alive refers
  | prepareNothing alive =>
    obtain ⟨-, fd, same, -⟩ := sound.good _ _ alive
    cases same
  | execMutating alive =>
    obtain ⟨held, fd, same, there, marked⟩ := sound.good _ _ alive
    refine sound.exec alive ⟨held, fd, same, Table.exec_eq.mpr ⟨there, rfl⟩,
      fun fd' o' c h => ?_⟩ nofun
    obtain ⟨there, open'⟩ := Table.exec_eq.mp h
    rcases marked fd' o' c there with closes | same
    · rw [show c = false from open'] at closes
      cases closes
    · exact same
  | execReadOnly alive =>
    have marked := sound.good _ _ alive
    refine sound.exec alive (fun fd o c h => ?_) nofun
    obtain ⟨there, open'⟩ := Table.exec_eq.mp h
    have closes : c = true := marked fd o c there
    rw [show c = false from open'] at closes
    cases closes
  | drop alive thread =>
    exact sound.move alive (by rw [thread]; rfl) (by rw [thread]; rfl) rfl nofun nofun
  | close alive thread => exact sound.leave alive (by rw [thread]; rfl)
  | exit alive => exact (sound.toLoose.remove _).settle

theorem sound_boot : Sound {} :=
  ⟨⟨nofun, nofun, nofun⟩, nofun⟩

theorem Reachable.sound (h : Reachable m) : Sound m := by
  induction h with
  | boot => exact sound_boot
  | step before s ih => exact ih.step s

/-- A thread is between acquiring the lock and releasing it. -/
def Inside (m : Machine) (pid tid : Nat) : Prop :=
  ∃ t a, m.process pid = some ⟨t, .agent a⟩ ∧ (a.threads tid).inside = true

/-- Its lock file is the description `o`. -/
def Operates (m : Machine) (pid tid o : Nat) : Prop :=
  ∃ t a fd c, m.process pid = some ⟨t, .agent a⟩ ∧ (a.threads tid).inside = true ∧
    (a.threads tid).file = some fd ∧ t fd = some ⟨some o, c⟩

/-- A child that an operation started to change the node, however far it is. -/
def Mutating (m : Machine) (child o : Nat) : Prop :=
  ∃ t d stage, m.process child = some ⟨t, .mutating o d stage⟩

/-- A child that has not executed its program yet. -/
def Unexecuted (m : Machine) (child o : Nat) : Prop :=
  ∃ t stage, m.process child = some ⟨t, .readOnly stage⟩ ∧ stage ≠ .running ∧ t.Has o

structure Excludes (m : Machine) : Prop where
  exclusive : ∀ pid pid' tid tid', Inside m pid tid → Inside m pid' tid' → pid = pid' ∧ tid = tid'
  guarded : ∀ child o, Mutating m child o → m.holder = some o ∧
    ∀ pid tid, Inside m pid tid → Operates m pid tid o
  unstarted : ∀ child o m' pid tid, Mutating m child o → Step m m' → Inside m' pid tid →
    Inside m pid tid
  readers : ∀ child t o, m.process child = some ⟨t, .readOnly .running⟩ → ¬ t.Has o
  released : ∀ o, m.holder = some o → (∃ pid tid, Operates m pid tid o) ∨
    (∃ child, Mutating m child o) ∨ ∃ child, Unexecuted m child o
  available : m.holder = none → ∀ pid tid t a fd, m.process pid = some ⟨t, .agent a⟩ →
    a.threads tid = .opened fd → ∃ m', Step m m' ∧ Inside m' pid tid

theorem Inside.operates (sound : Loose m) (inside : Inside m pid tid) :
    ∃ o, Operates m pid tid o ∧ m.holder = some o := by
  obtain ⟨t, a, alive, inside⟩ := inside
  obtain ⟨fd, o, file, there, held⟩ := inside_file sound alive inside
  exact ⟨o, ⟨t, a, fd, true, alive, inside, file, there⟩, held⟩

theorem Inside.unique {pid' tid' : Nat} (sound : Loose m) (inside : Inside m pid tid)
    (inside' : Inside m pid' tid') : pid = pid' ∧ tid = tid' := by
  obtain ⟨o, ⟨t, a, fd, c, alive, -, file, there⟩, held⟩ := inside.operates sound
  obtain ⟨o', ⟨t', a', fd', c', alive', -, file', there'⟩, held'⟩ := inside'.operates sound
  obtain rfl := Option.some.inj (held.symm.trans held')
  obtain ⟨rfl, -⟩ :=
    sound.alone pid pid' _ _ fd fd' o c c' alive alive' ⟨a, rfl⟩ ⟨a', rfl⟩ there there'
  rw [alive] at alive'
  cases alive'
  exact ⟨rfl, thread_unique sound alive file file' there there'⟩

theorem Mutating.holds {child : Nat} (sound : Loose m) (child' : Mutating m child o) :
    m.holder = some o := by
  obtain ⟨t, d, stage, alive⟩ := child'
  have good := sound.good child _ alive
  cases stage <;> exact good.1

theorem inside_put {pid' : Nat} (inside : Inside (m.put pid p) pid' tid)
    (was : ∀ t a, p = ⟨t, .agent a⟩ → (a.threads tid).inside = true → Inside m pid tid) :
    Inside m pid' tid := by
  obtain ⟨t, a, alive, inside⟩ := inside
  rcases put_cases alive with ⟨rfl, same⟩ | ⟨-, there⟩
  · exact was t a same.symm inside
  · exact ⟨t, a, there, inside⟩

/-- A thread of an agent changes, without getting the lock. -/
theorem inside_at {pid' tid' : Nat} {t' : Table} {x : Thread} {lockFd : Option Nat}
    (alive : m.process pid = some ⟨t, .agent a⟩)
    (inside : Inside (m.put pid ⟨t',
      .agent { a.at tid x with operationLockFd := lockFd }⟩) pid' tid')
    (before : x.inside = true → (a.threads tid).inside = true) : Inside m pid' tid' := by
  refine inside_put inside fun t₂ a₂ same there => ?_
  cases same
  refine ⟨t, a, alive, ?_⟩
  have there : ((a.at tid x).threads tid').inside = true := there
  by_cases same : tid' = tid
  · subst same
    rw [at_self] at there
    exact before there
  · rw [at_other _ same] at there
    exact there

/-- Only a free lock lets a thread in. -/
theorem Step.inside {m' : Machine} (s : Step m m') (after : Inside m' pid tid) :
    Inside m pid tid ∨ m.holder = none := by
  cases s with
  | start unused =>
    refine Or.inl (inside_put after fun t a same there => ?_)
    cases same
    cases there
  | openLock alive thread unused => exact Or.inl (inside_at alive after nofun)
  | grant alive thread refers free => exact Or.inr free
  | giveUp alive thread => exact Or.inl (inside_at alive after nofun)
  | own alive thread => exact Or.inl (inside_at alive after fun _ => by rw [thread]; rfl)
  | retain alive thread => exact Or.inl (inside_at alive after fun _ => by rw [thread]; rfl)
  | forkMutating alive thread refers unused =>
    refine Or.inl (inside_at alive (inside_put after fun t a same there => ?_) fun _ =>
      by rw [thread]; rfl)
    cases same
  | forkReadOnly alive unused =>
    refine Or.inl (inside_put after fun t a same there => ?_)
    cases same
  | openOther alive unused =>
    refine Or.inl (inside_put after fun t a same there => ?_)
    cases same
    exact ⟨_, _, alive, there⟩
  | closeOther alive refers =>
    refine Or.inl (inside_put after fun t a same there => ?_)
    cases same
    exact ⟨_, _, alive, there⟩
  | prepare alive refers =>
    refine Or.inl (inside_put after fun t a same there => ?_)
    cases same
  | prepareNothing alive =>
    refine Or.inl (inside_put after fun t a same there => ?_)
    cases same
  | execMutating alive =>
    refine Or.inl (inside_put after fun t a same there => ?_)
    cases same
  | execReadOnly alive =>
    refine Or.inl (inside_put after fun t a same there => ?_)
    cases same
  | drop alive thread => exact Or.inl (inside_at alive after fun _ => by rw [thread]; rfl)
  | close alive thread => exact Or.inl (inside_at alive after nofun)
  | @exit pid' p alive =>
    obtain ⟨t, a, there, inside⟩ := after
    have there : (m.remove pid').process pid = some ⟨t, .agent a⟩ := there
    by_cases same : pid = pid'
    · simp [Machine.remove, same] at there
    · exact Or.inl ⟨t, a, by simpa [Machine.remove, same] using there, inside⟩

/-- Who has the description of the holder open. -/
theorem Sound.reason (sound : Sound m) (held : m.holder = some o) :
    (∃ pid tid, Operates m pid tid o) ∨ (∃ child, Mutating m child o) ∨
      ∃ child, Unexecuted m child o := by
  obtain ⟨pid, t, there, has⟩ := sound.held o held
  obtain ⟨⟨t, role⟩, alive, rfl⟩ := Option.map_eq_some_iff.mp there
  have good := sound.good pid _ alive
  obtain ⟨fd, c, has⟩ : ∃ fd c, t fd = some ⟨some o, c⟩ := has
  cases role with
  | agent a =>
    have good : AgentGood m.holder t a := good
    obtain ⟨rfl, tid, user⟩ := good.used fd o c has
    obtain ⟨o', there, inside⟩ := good.files tid fd user
    obtain ⟨rfl, -⟩ : o = o' ∧ true = true := by simpa using has.symm.trans there
    exact Or.inl ⟨pid, tid, t, a, fd, true, alive, inside.mpr held, user, has⟩
  | mutating o' d stage =>
    have same : m.holder = some o' := by cases stage <;> exact good.1
    obtain rfl := Option.some.inj (held.symm.trans same)
    exact Or.inr (Or.inl ⟨pid, t, d, stage, alive⟩)
  | readOnly stage =>
    cases stage with
    | running => exact absurd has (good fd o c)
    | forked => exact Or.inr (Or.inr ⟨pid, t, .forked, alive, nofun, fd, c, has⟩)
    | prepared => exact Or.inr (Or.inr ⟨pid, t, .prepared, alive, nofun, fd, c, has⟩)

end

theorem operation_lock_excludes {m : Machine} (h : Reachable m) : Excludes m := by
  have sound := h.sound
  refine ⟨fun pid pid' tid tid' inside inside' => inside.unique sound.toLoose inside',
    fun child o child' => ⟨child'.holds sound.toLoose, fun pid tid inside => ?_⟩,
    fun child o m' pid tid child' s inside => ?_, fun child t o alive has => ?_,
    fun o held => sound.reason held, fun free pid tid t a fd alive thread => ?_⟩
  · obtain ⟨o', operates, held⟩ := inside.operates sound.toLoose
    obtain rfl := Option.some.inj (held.symm.trans (child'.holds sound.toLoose))
    exact operates
  · rcases s.inside inside with before | free
    · exact before
    · rw [child'.holds sound.toLoose] at free
      cases free
  · obtain ⟨fd, c, there⟩ := has
    exact sound.good child _ alive fd o c there
  · have good : AgentGood m.holder t a := sound.good pid _ alive
    obtain ⟨o, there, -⟩ := good.files tid fd (by rw [thread]; rfl)
    refine ⟨_, .grant alive thread there free, t, a.at tid (.granted fd), put_self m pid _, ?_⟩
    rw [at_self]
    rfl

/-- An agent with one operation. -/
theorem exists_operating : ∃ m t a, Reachable m ∧ m.process 0 = some ⟨t, .agent a⟩ ∧
    a.threads 0 = .operating 3 ∧ a.operationLockFd = some 3 ∧ t 3 = some ⟨some 0, true⟩ ∧
    m.holder = some 0 ∧ ∀ pid, pid ≠ 0 → m.process pid = none := by
  have started := Reachable.boot.step (@Step.start {} 0 rfl)
  have opened := started.step (@Step.openLock _ 0 0 3 _ _ rfl rfl rfl)
  have granted := opened.step (@Step.grant _ 0 0 3 0 true _ _ rfl rfl rfl rfl)
  have owned := granted.step (@Step.own _ 0 0 3 _ _ rfl rfl)
  refine ⟨_, _, _, owned, rfl, rfl, rfl, rfl, rfl, fun pid other => ?_⟩
  simp [Machine.put, other]

/-- An operation starts a child that changes the node. -/
theorem operation_lock_excludes_child : ∃ m, Inside m 0 0 ∧ Mutating m 1 0 ∧ Excludes m := by
  obtain ⟨m, t, a, reached, alive, thread, stored, there, -, others⟩ := exists_operating
  have retained := reached.step (.retain alive thread)
  have forked := retained.step (@Step.forkMutating _ 0 0 3 0 1 true (some 3) t _
    (by rw [put_self, stored]) (by rw [at_self]) there
    ((put_other _ Nat.one_ne_zero).trans (others 1 Nat.one_ne_zero)))
  refine ⟨_, ⟨t, (a.at 0 (.retaining 3 (some 3))).at 0 (.operating 3), ?_, ?_⟩,
    ⟨t, some 3, .forked, put_self _ 1 _⟩, operation_lock_excludes forked⟩
  · rw [put_other _ Nat.zero_ne_one, put_self]
  · rw [at_self]
    rfl

/-- The owner is killed while a probe it started has not executed its program. -/
theorem probe_keeps_lock : ∃ m, Reachable m ∧ (∀ pid tid, ¬ Inside m pid tid) ∧
    (∀ child o, ¬ Mutating m child o) ∧ Unexecuted m 1 0 ∧ m.holder = some 0 := by
  obtain ⟨m, t, a, reached, alive, -, -, there, held, others⟩ := exists_operating
  have forked := reached.step (.forkReadOnly alive (others 1 Nat.one_ne_zero))
  have killed := forked.step (.exit ((put_other _ Nat.zero_ne_one).trans alive))
  have only : ∀ pid p, ((m.put 1 ⟨t, .readOnly .forked⟩).remove 0).process pid = some p →
      p = ⟨t, .readOnly .forked⟩ := by
    intro pid p alive
    by_cases owner : pid = 0
    · simp [Machine.remove, owner] at alive
    · have alive : (m.put 1 ⟨t, .readOnly .forked⟩).process pid = some p := by
        simpa [Machine.remove, owner] using alive
      rcases put_cases alive with ⟨-, same⟩ | ⟨-, there⟩
      · exact same
      · rw [others pid owner] at there
        cases there
  refine ⟨_, killed, fun pid tid inside => ?_, fun child o child' => ?_,
    ⟨t, .forked, rfl, nofun, 3, true, there⟩, ?_⟩
  · obtain ⟨t', a', alive, -⟩ := inside
    cases only pid _ alive
  · obtain ⟨t', d, stage, alive⟩ := child'
    cases only child _ alive
  · exact holderAfter_eq_some.mpr ⟨held, 1, t, rfl, 3, true, there⟩

end CarbideOS.OperationLock
