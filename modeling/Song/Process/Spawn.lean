import Mathlib.Logic.Function.Basic
import Song.Process.Holders

/-!
# The child of `ServiceProcess::spawn` (`process.cpp`)

Between `fork` and `execl` the child duplicates its ends of the two pipes to its standard input and
output and then closes the pipes. An end of a pipe gets the lowest number that is free, so where the
parent's own standard input or output is closed an end has that number, and the child closes what
it has just put there. The service is wired to its parent exactly if both were open
(`spawn_wires_iff`). Besides, it has the sockets of its parent, which `exec` does not close
(`service_inherits`).
-/

namespace Song.Descriptors

open Holdings (Store)

/-- What a descriptor refers to: an end of a pipe of `spawn`, or something of the parent's. -/
inductive File (φ : Type) where
  | parentRead
  | childWrite
  | childRead
  | parentWrite
  | own (f : φ)

structure Entry (φ : Type) where
  file : File φ
  closeOnExec : Bool

/-- The descriptors of a process. -/
abbrev Table (φ : Type) := Nat → Option (Entry φ)

namespace Table

variable {φ : Type}

/-- The parent before it spawns. -/
def ofParent (opened : List Nat) (own : Nat → φ × Bool) : Table φ := fun n =>
  if n ∈ opened then some ⟨.own (own n).1, (own n).2⟩ else none

def entry (t : Table φ) (fd : Int) : Option (Entry φ) := if 0 ≤ fd then t fd.toNat else none

/-- `dup2`, which does nothing where the numbers are equal or the first is not open. -/
def dup2 (t : Table φ) (fd : Int) (fd' : Nat) : Table φ :=
  if fd = fd' then t
  else
    match t.entry fd with
    | none => t
    | some e => Function.update t fd' (some { e with closeOnExec := false })

def close (t : Table φ) (fd : Int) : Table φ :=
  if 0 ≤ fd then Function.update t fd.toNat none else t

/-- `Pipe::close`. -/
def closePipe (t : Table φ) (p : Pipe) : Table φ := (t.close p.readFd).close p.writeFd

def exec (t : Table φ) : Table φ := fun n => (t n).filter fun e => !e.closeOnExec

/-- A new end of a pipe, with `FD_CLOEXEC`. -/
def put (t : Table φ) (fd : Int) (f : File φ) : Table φ :=
  Function.update t fd.toNat (some ⟨f, true⟩)

/-- After the two calls of `create_pair`. -/
def withPipes (t : Table φ) (first second : Pipe × Pipe) : Table φ :=
  (((t.put first.1.readFd .parentRead).put first.2.writeFd .childWrite).put
    second.1.readFd .childRead).put second.2.writeFd .parentWrite

/-- What the child does until the service runs. -/
def child (t : Table φ) (first second : Pipe × Pipe) : Table φ :=
  ((((((t.dup2 second.1.readFd 0).dup2 first.2.writeFd 1).closePipe first.1).closePipe
    second.2).closePipe second.1).closePipe first.2).exec

/-- The service reads what its parent writes and writes what its parent reads; besides, it has what
its parent leaves to every child. -/
structure Wired (parent t : Table φ) : Prop where
  input : t 0 = some ⟨.childRead, false⟩
  output : t 1 = some ⟨.childWrite, false⟩
  others : ∀ n, 2 ≤ n → t n = parent.exec n

end Table

/-- The descriptors with which `spawn` starts the service. -/
def spawned {φ : Type} (own : Nat → φ × Bool) : Sys (Table φ) := do
  let parent := Table.ofParent (← get).opened own
  let first ← Pipe.createPair false
  let second ← Pipe.createPair false
  return (parent.withPipes first second).child first second

/-! ## What the child makes of its descriptors -/

section
variable {φ : Type} {t : Table φ}

@[simp] theorem entry_natCast (n : Nat) : t.entry n = t n := if_pos (Int.natCast_nonneg n)

@[simp] theorem close_natCast (n : Nat) : t.close n = Function.update t n none :=
  if_pos (Int.natCast_nonneg n)

@[simp] theorem close_none : t.close (-1) = t := rfl

theorem dup2_eq {fd fd' : Nat} (hne : fd ≠ fd') {e : Entry φ} (h : t fd = some e) :
    t.dup2 fd fd' = Function.update t fd' (some { e with closeOnExec := false }) := by
  have hcast : (fd : Int) ≠ fd' := by exact_mod_cast hne
  unfold Table.dup2
  rw [if_neg hcast, entry_natCast, h]

/-- What `create_pair` returns. -/
def pairOf (read write : Nat) : Pipe × Pipe := (⟨read, -1⟩, ⟨-1, write⟩)

variable {pr cw cr pw : Nat}

theorem withPipes_apply (n : Nat) : t.withPipes (pairOf pr cw) (pairOf cr pw) n =
    if n = pw then some ⟨.parentWrite, true⟩
    else if n = cr then some ⟨.childRead, true⟩
    else if n = cw then some ⟨.childWrite, true⟩
    else if n = pr then some ⟨.parentRead, true⟩
    else t n := by
  simp only [Table.withPipes, pairOf, Table.put, Int.toNat_natCast, Function.update_apply]

/-- The closed ends are gone; elsewhere there is what the duplicates left, less what `exec`
closes. -/
theorem child_apply (n : Nat) : t.child (pairOf pr cw) (pairOf cr pw) n =
    if n ∈ [pr, cw, cr, pw] then none else ((t.dup2 cr 0).dup2 cw 1).exec n := by
  simp only [Table.child, pairOf, Table.closePipe, close_none, close_natCast, Table.exec,
    Function.update_apply, List.mem_cons, List.not_mem_nil, or_false]
  by_cases h : n = pr ∨ n = cw ∨ n = cr ∨ n = pw
  · rw [if_pos h]
    rcases h with rfl | rfl | rfl | rfl <;> simp
  · obtain ⟨hpr, hcw, hcr, hpw⟩ : n ≠ pr ∧ n ≠ cw ∧ n ≠ cr ∧ n ≠ pw := by
      simpa only [not_or] using h
    rw [if_neg h, if_neg hcw, if_neg hcr, if_neg hpw, if_neg hpr]

/-- Below 2 the duplicates, and elsewhere what was there. -/
theorem dups_apply (hcr : t cr = some ⟨.childRead, true⟩) (hcw : t cw = some ⟨.childWrite, true⟩)
    (hcr2 : 2 ≤ cr) (hcw2 : 2 ≤ cw) (n : Nat) : (t.dup2 cr 0).dup2 cw 1 n =
    if n = 1 then some ⟨.childWrite, false⟩
    else if n = 0 then some ⟨.childRead, false⟩
    else t n := by
  have hcr0 : cr ≠ 0 := by omega
  have hcw0 : cw ≠ 0 := by omega
  have hcw1 : cw ≠ 1 := by omega
  rw [dup2_eq hcr0 hcr]
  have hleft : Function.update t 0 (some ⟨.childRead, false⟩) cw = some ⟨.childWrite, true⟩ := by
    rw [Function.update_of_ne hcw0, hcw]
  rw [dup2_eq hcw1 hleft]
  simp only [Function.update_apply]

/-- The service's table, by the numbers of the ends. -/
def serviceTable (t : Table φ) (pr cw cr pw : Nat) : Table φ :=
  (t.withPipes (pairOf pr cw) (pairOf cr pw)).child (pairOf pr cw) (pairOf cr pw)

/-- An end below 2 is where a duplicate belongs, and is closed. -/
theorem two_le_of_wired {parent : Table φ} (h : parent.Wired (serviceTable t pr cw cr pw))
    {fd : Nat} (hfd : fd ∈ [pr, cw, cr, pw]) : 2 ≤ fd := by
  have hclosed : serviceTable t pr cw cr pw fd = none := by
    rw [serviceTable, child_apply, if_pos hfd]
  by_contra hlt
  obtain rfl | rfl : fd = 0 ∨ fd = 1 := by omega
  · cases hclosed.symm.trans h.input
  · cases hclosed.symm.trans h.output

/-- Ends from 2 on are clear of the duplicates. -/
theorem wired_of_two_le (hnodup : [pr, cw, cr, pw].Nodup)
    (hfree : ∀ fd ∈ [pr, cw, cr, pw], t fd = none) (h : ∀ fd ∈ [pr, cw, cr, pw], 2 ≤ fd) :
    t.Wired (serviceTable t pr cw cr pw) := by
  simp only [List.nodup_cons, List.mem_cons, List.not_mem_nil, or_false, not_or] at hnodup
  obtain ⟨-, ⟨hcc, hcp⟩, hrp, -⟩ := hnodup
  have hread : t.withPipes (pairOf pr cw) (pairOf cr pw) cr = some ⟨.childRead, true⟩ := by
    rw [withPipes_apply, if_neg hrp, if_pos rfl]
  have hwrite : t.withPipes (pairOf pr cw) (pairOf cr pw) cw = some ⟨.childWrite, true⟩ := by
    rw [withPipes_apply, if_neg hcp, if_neg hcc, if_pos rfl]
  have hdups := dups_apply hread hwrite (h cr (by simp)) (h cw (by simp))
  have hlow : ∀ n < 2, n ∉ [pr, cw, cr, pw] := fun n hn hmem => by
    have := h n hmem
    omega
  refine ⟨?_, ?_, fun n hn => ?_⟩
  · rw [serviceTable, child_apply, if_neg (hlow 0 (by omega)), Table.exec, hdups]
    rfl
  · rw [serviceTable, child_apply, if_neg (hlow 1 (by omega)), Table.exec, hdups]
    rfl
  · rw [serviceTable, child_apply]
    split
    · next hend =>
      rw [Table.exec, hfree n hend]
      rfl
    · next hend =>
      simp only [List.mem_cons, List.not_mem_nil, or_false, not_or] at hend
      obtain ⟨hpr, hcw, hcr, hpw⟩ := hend
      have hn1 : n ≠ 1 := by omega
      have hn0 : n ≠ 0 := by omega
      rw [Table.exec, hdups, if_neg hn1, if_neg hn0, withPipes_apply, if_neg hpw, if_neg hcr,
        if_neg hcw, if_neg hpr]
      rfl

end

/-! ## The numbers of the pipes -/

theorem mem_of_lt_lowest {l : List Nat} {n : Nat} (h : n < lowest l) : n ∈ l := by
  unfold lowest at h
  cases hfind : (List.range (l.length + 1)).find? fun n => n ∉ l with
  | none =>
    rw [hfind] at h
    exact absurd h (Nat.not_lt_zero n)
  | some m =>
    rw [hfind] at h
    have hbelow := (List.find?_range_eq_some.mp hfind).2.2 n h
    simpa using hbelow

theorem two_le_lowest {l : List Nat} : 2 ≤ lowest l ↔ 0 ∈ l ∧ 1 ∈ l := by
  constructor
  · intro h
    exact ⟨mem_of_lt_lowest (by omega), mem_of_lt_lowest (by omega)⟩
  · rintro ⟨h0, h1⟩
    have hne0 : lowest l ≠ 0 := fun heq => lowest_free l (heq ▸ h0)
    have hne1 : lowest l ≠ 1 := fun heq => lowest_free l (heq ▸ h1)
    omega

theorem two_le_of_subset {opened l : List Nat} (h : 0 ∈ opened ∧ 1 ∈ opened) (hsub : opened ⊆ l) :
    2 ≤ lowest l :=
  two_le_lowest.mpr ⟨hsub h.1, hsub h.2⟩

/-- The numbers that the four ends get, one after the other. -/
theorem ends_of_opened (opened : List Nat) {pr cw cr pw : Nat} (hpr : lowest opened = pr)
    (hcw : lowest (pr :: opened) = cw) (hcr : lowest (cw :: pr :: opened) = cr)
    (hpw : lowest (cr :: cw :: pr :: opened) = pw) :
    [pr, cw, cr, pw].Nodup ∧ (∀ fd ∈ [pr, cw, cr, pw], fd ∉ opened) ∧
      ((∀ fd ∈ [pr, cw, cr, pw], 2 ≤ fd) ↔ 0 ∈ opened ∧ 1 ∈ opened) := by
  have h1 := lowest_free opened
  have h2 := lowest_free (pr :: opened)
  have h3 := lowest_free (cw :: pr :: opened)
  have h4 := lowest_free (cr :: cw :: pr :: opened)
  rw [hpr] at h1
  rw [hcw] at h2
  rw [hcr] at h3
  rw [hpw] at h4
  simp only [List.mem_cons, not_or] at h2 h3 h4
  refine ⟨?_, ?_, ?_, fun h => ?_⟩
  · simp only [List.nodup_cons, List.mem_cons, List.not_mem_nil, or_false, not_or,
      not_false_eq_true, List.nodup_nil, and_true]
    omega
  · simp only [List.mem_cons, List.not_mem_nil, or_false, forall_eq_or_imp, forall_eq]
    exact ⟨h1, h2.2, h3.2.2, h4.2.2.2⟩
  · intro h
    have hlow := h pr (List.mem_cons_self)
    rw [← hpr] at hlow
    exact two_le_lowest.mp hlow
  · simp only [List.mem_cons, List.not_mem_nil, or_false, forall_eq_or_imp, forall_eq]
    subst hpr hcw hcr hpw
    refine ⟨two_le_of_subset h fun _ hx => hx, two_le_of_subset h fun _ hx => ?_,
      two_le_of_subset h fun _ hx => ?_, two_le_of_subset h fun _ hx => ?_⟩
    · exact List.mem_cons_of_mem _ hx
    · exact List.mem_cons_of_mem _ (List.mem_cons_of_mem _ hx)
    · exact List.mem_cons_of_mem _ (List.mem_cons_of_mem _ (List.mem_cons_of_mem _ hx))

/-- The child, by the numbers that its parent gets. -/
theorem spawned_run {φ : Type} (own : Nat → φ × Bool) (s : Store Nat) :
    ∃ pr cw cr pw s', (spawned own).run s =
        .ok (serviceTable (Table.ofParent s.opened own) pr cw cr pw) s' ∧
      ((Table.ofParent s.opened own).Wired
          (serviceTable (Table.ofParent s.opened own) pr cw cr pw) ↔
        0 ∈ s.opened ∧ 1 ∈ s.opened) := by
  obtain ⟨hnodup, hfree, hlow⟩ := ends_of_opened s.opened rfl rfl rfl rfl
  refine ⟨_, _, _, _, _, rfl, ?_⟩
  rw [← hlow]
  constructor
  · exact fun h fd hfd => two_le_of_wired h hfd
  · exact fun h => wired_of_two_le hnodup (fun fd hfd => if_neg (hfree fd hfd)) h

/-- Whatever the parent has open, `spawn` starts a service, and it is wired to its parent if and
only if the parent has its standard input and output open. -/
theorem spawn_wires_iff {φ : Type} (own : Nat → φ × Bool) (s : Store Nat) :
    ∃ t s', (spawned own).run s = .ok t s' ∧
      (Table.Wired (Table.ofParent s.opened own) t ↔ 0 ∈ s.opened ∧ 1 ∈ s.opened) := by
  obtain ⟨pr, cw, cr, pw, s', hrun, hiff⟩ := spawned_run own s
  exact ⟨_, s', hrun, hiff⟩

/-! ## What else the service gets -/

/-- The ends of pipes that an object holds. -/
def Obj.pipeEnds : Obj → List Nat
  | pipe p => p.fds
  | pipeTransport t => t.fds
  | process p => p.fds
  | tcp _ | listener _ | tls _ | tlsListener _ => []

def Obj.sockets : Obj → List Nat
  | tcp t => t.fds
  | listener l => l.fds
  | tls t => t.fds
  | tlsListener l => l.fds
  | pipe _ | pipeTransport _ | process _ => []

theorem Obj.fds_eq (o : Obj) : o.fds = o.pipeEnds ++ o.sockets := by
  cases o <;> simp [fds, pipeEnds, sockets]

namespace World

variable (w : World)

def pipeEnds : List Nat := w.objs.flatMap Obj.pipeEnds

def sockets : List Nat := w.objs.flatMap Obj.sockets

/-- What `exec` closes: `create_pair` marks its ends for that, but `socket`, `accept` and `dup` leave
theirs unmarked. -/
def closeOnExec (own : Nat → Bool) (n : Nat) : Bool :=
  if n ∈ w.pipeEnds then true
  else if n ∈ w.sockets then false
  else own n

theorem allFds_perm : (allFds w.objs).Perm (w.pipeEnds ++ w.sockets) := by
  have hfds : allFds w.objs = w.objs.flatMap fun o => o.pipeEnds ++ o.sockets := by
    simp only [allFds, ← Obj.fds_eq]
  rw [hfds]
  exact (List.flatMap_append_perm w.objs Obj.pipeEnds Obj.sockets).symm

end World

theorem exec_ofParent {φ : Type} {opened : List Nat} {own : Nat → φ × Bool} {n : Nat} :
    ((Table.ofParent opened own).exec n).isSome ↔ n ∈ opened ∧ (own n).2 = false := by
  unfold Table.exec Table.ofParent
  by_cases h : n ∈ opened
  · cases (own n).2 <;> simp [h]
  · simp [h]

/-- Whatever a program did before, and with its standard input and output open, a service that it
starts has besides its pipes what the program was given and leaves to every child, and all sockets
of the transports and listeners that live; of their pipes it has none. -/
theorem service_inherits {φ : Type} (files : Nat → φ) (own : Nat → Bool) {before : List Nat}
    (hbefore : before.Nodup) (h0 : 0 ∈ before) (h1 : 1 ∈ before) {ls : List Label} {w : World}
    (h : Lts.Run World.step (fun _ _ => True) ⟨⟨before, 0⟩, []⟩ ls w) :
    ∃ t s', (spawned fun n => (files n, w.closeOnExec own n)).run w.store = .ok t s' ∧
      t 0 = some ⟨.childRead, false⟩ ∧ t 1 = some ⟨.childWrite, false⟩ ∧
      ∀ n, 2 ≤ n → ((t n).isSome ↔ n ∈ before ∧ own n = false ∨ n ∈ w.sockets) := by
  have hholds := World.Holds.of_run hbefore h
  have hperm : w.store.opened.Perm ((w.pipeEnds ++ w.sockets) ++ before) :=
    hholds.perm.trans (w.allFds_perm.append_right before)
  have hnodup := hperm.nodup_iff.mp hholds.nodup
  have hopened : ∀ n ∈ before, n ∈ w.store.opened := fun n hn =>
    hperm.mem_iff.mpr (List.mem_append_right _ hn)
  obtain ⟨pr, cw, cr, pw, s', hrun, hiff⟩ :=
    spawned_run (fun n => (files n, w.closeOnExec own n)) w.store
  have hwired := hiff.mpr ⟨hopened 0 h0, hopened 1 h1⟩
  refine ⟨_, s', hrun, hwired.input, hwired.output, fun n hn => ?_⟩
  rw [hwired.others n hn, exec_ofParent, hperm.mem_iff, List.mem_append, List.mem_append]
  unfold World.closeOnExec
  by_cases hend : n ∈ w.pipeEnds
  · -- an end is no socket, and is not the program's own
    have hsocket : n ∉ w.sockets := List.disjoint_of_nodup_append hnodup.of_append_left hend
    have hown : n ∉ before :=
      List.disjoint_of_nodup_append hnodup (List.mem_append_left _ hend)
    simp [hend, hsocket, hown]
  · by_cases hsocket : n ∈ w.sockets
    · simp [hend, hsocket]
    · simp [hend, hsocket]

/-- A program connects to a server. -/
def dialled (host : Str) : List Label := [.tcpTransport, .connect 0 host 80 .connected]

/-- The service that it then starts has the connection too. -/
theorem service_inherits_dialled :
    ∃ w t s', Lts.follow World.step ⟨⟨[0, 1, 2], 0⟩, []⟩ (dialled (lit "localhost")) = some w ∧
      (spawned fun n => (n, w.closeOnExec (fun _ => false) n)).run w.store = .ok t s' ∧
      (t 3).isSome := by
  have hrun : Lts.follow World.step ⟨⟨[0, 1, 2], 0⟩, []⟩ (dialled (lit "localhost")) =
      some ⟨⟨[3, 0, 1, 2], 0⟩, [.tcp ⟨3, lit "localhost", 80⟩]⟩ := rfl
  obtain ⟨t, s', hspawned, -, -, hrest⟩ := service_inherits (fun n : Nat => n) (fun _ => false)
    (by decide) (by decide) (by decide) (Lts.Run.nil.follow (fun _ _ _ => trivial) hrun)
  exact ⟨_, t, s', hrun, hspawned, (hrest 3 (by decide)).mpr (Or.inr (by decide))⟩

end Song.Descriptors
