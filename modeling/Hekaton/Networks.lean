import Mathlib.Data.List.Perm.Basic
import Mathlib.Logic.Function.Basic

/-!
# Networks

Deterministic programs that send messages to each other and wait for messages, over channels
that keep their order. Steps of two programs commute, so every schedule of the steps is part
of one that ends where any other schedule ends: no order of the steps deadlocks, runs on, or
finishes with something else. A network is run by running its programs one at a time.
-/

namespace Networks

section Commuting
variable {ι σ : Type} {act : ι → σ → Option σ} {s a final : σ} {i : ι} {schedule : List ι}

/-- Steps of two parties lead to one state in either order, and neither stops the other. -/
def Commuting (act : ι → σ → Option σ) : Prop :=
  ∀ ⦃i j s a b⦄, i ≠ j → act i s = some a → act j s = some b →
    ∃ d, act j a = some d ∧ act i b = some d

/-- The state after the steps of these parties, where all of them can be taken. -/
def runs (act : ι → σ → Option σ) : List ι → σ → Option σ
  | [], s => some s
  | i :: schedule, s => (act i s).bind (runs act schedule)

/-- No party can take a step. -/
def Stuck (act : ι → σ → Option σ) (s : σ) : Prop := ∀ i, act i s = none

@[simp] theorem runs_nil (s : σ) : runs act [] s = some s := rfl

theorem runs_cons : runs act (i :: schedule) s = some final ↔
    ∃ a, act i s = some a ∧ runs act schedule a = some final := Option.bind_eq_some_iff

theorem runs_append {first rest : List ι} {mid : σ} (ran : runs act first s = some mid) :
    runs act (first ++ rest) s = runs act rest mid := by
  induction first generalizing s with
  | nil =>
    cases ran
    rfl
  | cons i first ih =>
    obtain ⟨a, stepped, ranRest⟩ := runs_cons.mp ran
    rw [List.cons_append, runs, stepped, Option.bind_some, ih ranRest]

/-- A party that can take a step takes it in every schedule that ends stuck, and may as well
take it first. -/
theorem takes_first (commuting : Commuting act) (ran : runs act schedule s = some final)
    (stuck : Stuck act final) (stepped : act i s = some a) :
    ∃ rest, (i :: rest).Perm schedule ∧ runs act rest a = some final := by
  classical
  induction schedule generalizing s a with
  | nil =>
    cases ran
    simp [stuck i] at stepped
  | cons j schedule ih =>
    obtain ⟨b, first, ranRest⟩ := runs_cons.mp ran
    by_cases same : i = j
    · subst same
      cases stepped.symm.trans first
      exact ⟨schedule, .refl _, ranRest⟩
    · obtain ⟨d, later, earlier⟩ := commuting same stepped first
      obtain ⟨rest, perm, ranLater⟩ := ih ranRest earlier
      refine ⟨j :: rest, ?_, runs_cons.mpr ⟨d, later, ranLater⟩⟩
      exact (List.Perm.swap j i rest).trans (perm.cons j)

/-- Whatever steps were taken, those of a schedule that ends stuck remain, to the same end. -/
theorem completes (commuting : Commuting act) (ran : runs act schedule s = some final)
    (stuck : Stuck act final) {taken : List ι} (began : runs act taken s = some a) :
    ∃ rest, (taken ++ rest).Perm schedule ∧ runs act rest a = some final := by
  induction taken generalizing s schedule with
  | nil =>
    cases began
    exact ⟨schedule, .refl _, ran⟩
  | cons i taken ih =>
    obtain ⟨b, first, later⟩ := runs_cons.mp began
    obtain ⟨rest, perm, ranRest⟩ := takes_first commuting ran stuck first
    obtain ⟨rest', perm', ranLast⟩ := ih ranRest later
    exact ⟨rest', (perm'.cons i).trans perm, ranLast⟩

end Commuting

/-- What a party still does: it ends with an outcome, sends, or waits for a message. -/
inductive Program (ι Msg ε α : Type) where
  | halt (outcome : Except ε α)
  | send (dest : ι) (message : Msg) (next : Program ι Msg ε α)
  | receive (source : ι) (next : Msg → Program ι Msg ε α)

namespace Program
variable {ι Msg ε α β γ : Type}

protected def bind : Program ι Msg ε α → (α → Program ι Msg ε β) → Program ι Msg ε β
  | halt (.ok a), next => next a
  | halt (.error e), _ => halt (.error e)
  | send dest message p, next => send dest message (p.bind next)
  | receive source p, next => receive source fun message => (p message).bind next

instance instMonad : Monad (Program ι Msg ε) where
  pure a := halt (.ok a)
  bind := Program.bind

/-- A step that does not communicate. -/
def lift (o : Except ε α) : Program ι Msg ε α := halt o

def sendTo (dest : ι) (message : Msg) : Program ι Msg ε Unit := send dest message (halt (.ok ()))

def receiveFrom (source : ι) : Program ι Msg ε Msg := receive source fun message =>
  halt (.ok message)

theorem id_map (p : Program ι Msg ε α) : id <$> p = p := by
  change p.bind (fun a => halt (.ok a)) = p
  induction p with
  | halt outcome => cases outcome <;> rfl
  | send dest message p ih => rw [Program.bind, ih]
  | receive source p ih => simp only [Program.bind, ih]

theorem bind_assoc (p : Program ι Msg ε α) (next : α → Program ι Msg ε β)
    (last : β → Program ι Msg ε γ) :
    p >>= next >>= last = p >>= fun a => next a >>= last := by
  change (p.bind next).bind last = p.bind fun a => (next a).bind last
  induction p with
  | halt outcome => cases outcome <;> rfl
  | send dest message p ih => simp only [Program.bind, ih]
  | receive source p ih => simp only [Program.bind, ih]

instance instLawfulMonad : LawfulMonad (Program ι Msg ε) :=
  .mk' _ id_map (fun _ _ => rfl) bind_assoc

end Program

section Solo
variable {ι Msg ε α β : Type}

/-- A program that receives these messages sends these, up to what it still does. -/
inductive Solo : Program ι Msg ε α → List (ι × Msg) → List (ι × Msg) → Program ι Msg ε α → Prop
  | stop (p : Program ι Msg ε α) : Solo p [] [] p
  | send {dest : ι} {message : Msg} {p last : Program ι Msg ε α} {received sent : List (ι × Msg)}
      (rest : Solo p received sent last) :
      Solo (.send dest message p) received ((dest, message) :: sent) last
  | receive {source : ι} {message : Msg} {p : Msg → Program ι Msg ε α} {last : Program ι Msg ε α}
      {received sent : List (ι × Msg)} (rest : Solo (p message) received sent last) :
      Solo (.receive source p) ((source, message) :: received) sent last

namespace Solo
variable {received sent received' sent' : List (ι × Msg)}

/-- A part that succeeds, and what follows it. -/
theorem bind {p : Program ι Msg ε α} {next : α → Program ι Msg ε β} {last : Program ι Msg ε β}
    {a : α} (first : Solo p received sent (.halt (.ok a)))
    (rest : Solo (next a) received' sent' last) :
    Solo (p >>= next) (received ++ received') (sent ++ sent') last := by
  generalize ended : Program.halt (.ok a) = middle at first
  induction first with
  | stop p =>
    cases ended
    exact rest
  | send _ ih => exact (ih ended).send
  | receive _ ih => exact .receive (ih ended)

/-- A part that succeeds, and what is still done after it. -/
theorem bind_stop {p : Program ι Msg ε α} {next : α → Program ι Msg ε β}
    {last : Program ι Msg ε β} {a : α} (first : Solo p received sent (.halt (.ok a)))
    (same : next a = last) : Solo (p >>= next) received sent last := by
  have both := first.bind (.stop (next a))
  rwa [List.append_nil, List.append_nil, same] at both

/-- A part that only receives, and one that only sends. -/
theorem bind_sends {p : Program ι Msg ε α} {next : α → Program ι Msg ε β}
    {last : Program ι Msg ε β} {a : α} (first : Solo p received [] (.halt (.ok a)))
    (rest : Solo (next a) [] sent last) : Solo (p >>= next) received sent last := by
  have both := first.bind rest
  rwa [List.append_nil, List.nil_append] at both

/-- A step that does not communicate, and what follows it. -/
theorem lift_bind {o : Except ε α} {a : α} (ran : o = .ok a) {next : α → Program ι Msg ε β}
    {last : Program ι Msg ε β} (rest : Solo (next a) received sent last) :
    Solo (.lift o >>= next) received sent last := by
  cases ran
  exact rest

theorem sendTo (dest : ι) (message : Msg) :
    Solo (.sendTo dest message : Program ι Msg ε Unit) [] [(dest, message)] (.halt (.ok ())) :=
  .send (.stop _)

/-- A loop of sends. -/
theorem forM {f : β → Program ι Msg ε Unit} {out : β → List (ι × Msg)} (l : List β)
    (each : ∀ b ∈ l, Solo (f b) [] (out b) (.halt (.ok ()))) :
    Solo (l.forM f) [] (l.flatMap out) (.halt (.ok ())) := by
  induction l with
  | nil => exact .stop _
  | cons b l ih =>
    obtain ⟨first, rest⟩ := List.forall_mem_cons.mp each
    exact first.bind (ih rest)

/-- A loop of receives. -/
theorem mapM {f : β → Program ι Msg ε α} {inp : β → List (ι × Msg)} {result : β → α}
    (l : List β) (each : ∀ b ∈ l, Solo (f b) (inp b) [] (.halt (.ok (result b)))) :
    Solo (l.mapM f) (l.flatMap inp) [] (.halt (.ok (l.map result))) := by
  induction l with
  | nil => exact .stop _
  | cons b l ih =>
    obtain ⟨first, rest⟩ := List.forall_mem_cons.mp each
    rw [List.mapM_cons]
    exact first.bind ((ih rest).bind_stop rfl)

end Solo

/-- The programs, and the messages on the way from each party to each. -/
@[ext] structure Network (ι Msg ε α : Type) where
  programs : ι → Program ι Msg ε α
  channels : ι × ι → List Msg

variable [DecidableEq ι]

/-- One step of a party: send to the end of a channel, or take the first message of one. -/
def Network.advance (i : ι) (net : Network ι Msg ε α) : Option (Network ι Msg ε α) :=
  match net.programs i with
  | .halt _ => none
  | .send dest message p => some {
      programs := Function.update net.programs i p
      channels := Function.update net.channels (i, dest) (net.channels (i, dest) ++ [message]) }
  | .receive source p =>
    match net.channels (source, i) with
    | [] => none
    | message :: rest => some {
        programs := Function.update net.programs i (p message)
        channels := Function.update net.channels (source, i) rest }

namespace Network
variable {net a : Network ι Msg ε α} {i : ι} {message : Msg}

theorem advance_send {dest : ι} {p : Program ι Msg ε α}
    (sending : net.programs i = .send dest message p) :
    net.advance i = some ⟨Function.update net.programs i p,
      Function.update net.channels (i, dest) (net.channels (i, dest) ++ [message])⟩ := by
  rw [advance, sending]

theorem advance_receive {source : ι} {p : Msg → Program ι Msg ε α} {rest : List Msg}
    (receiving : net.programs i = .receive source p)
    (arrived : net.channels (source, i) = message :: rest) :
    net.advance i = some ⟨Function.update net.programs i (p message),
      Function.update net.channels (source, i) rest⟩ := by
  rw [advance, receiving]
  simp only [arrived]

/-- What a step can be. -/
theorem advance_cases (stepped : net.advance i = some a) :
    (∃ dest message p, net.programs i = .send dest message p ∧
      a = ⟨Function.update net.programs i p,
        Function.update net.channels (i, dest) (net.channels (i, dest) ++ [message])⟩) ∨
    ∃ source p message rest, net.programs i = .receive source p ∧
      net.channels (source, i) = message :: rest ∧
      a = ⟨Function.update net.programs i (p message),
        Function.update net.channels (source, i) rest⟩ := by
  rw [advance] at stepped
  cases here : net.programs i with
  | halt outcome => simp [here] at stepped
  | send dest message p =>
    simp only [here, Option.some.injEq] at stepped
    exact Or.inl ⟨dest, message, p, rfl, stepped.symm⟩
  | receive source p =>
    cases arrived : net.channels (source, i) with
    | nil => simp [here, arrived] at stepped
    | cons message rest =>
      simp only [here, arrived, Option.some.injEq] at stepped
      exact Or.inr ⟨source, p, message, rest, rfl, arrived, stepped.symm⟩

/-- Steps of different parties do not disturb each other: a channel has one sender, who only
appends to it, and one receiver. -/
theorem advance_commuting : Commuting (advance : ι → Network ι Msg ε α → _) := by
  intro i j net a b different first second
  have other : ∀ p, Function.update net.programs i p j = net.programs j := fun p =>
    Function.update_of_ne different.symm _ _
  have other' : ∀ p, Function.update net.programs j p i = net.programs i := fun p =>
    Function.update_of_ne different _ _
  rcases advance_cases first with ⟨dest, message, p, here, rfl⟩ |
    ⟨source, p, message, rest, here, arrived, rfl⟩ <;>
  rcases advance_cases second with ⟨dest', message', p', there, rfl⟩ |
    ⟨source', p', message', rest', there, arrived', rfl⟩
  · have apart : (i, dest) ≠ (j, dest') := fun same => different (congrArg Prod.fst same)
    refine ⟨_, advance_send ((other p).trans there), (advance_send ((other' p').trans here)).trans ?_⟩
    simp only [Function.update_of_ne apart, Function.update_of_ne apart.symm,
      Function.update_comm different, Function.update_comm apart]
  · by_cases same : (i, dest) = (source', j)
    · obtain ⟨rfl, rfl⟩ := Prod.mk.inj same
      have queued : Function.update net.channels (i, dest) (net.channels (i, dest) ++ [message])
          (i, dest) = message' :: (rest' ++ [message]) := by
        rw [Function.update_self, arrived', List.cons_append]
      refine ⟨_, advance_receive ((other p).trans there) queued,
        (advance_send ((other' _).trans here)).trans ?_⟩
      simp only [Function.update_self, Function.update_idem, Function.update_comm different]
    · refine ⟨_, advance_receive ((other p).trans there)
        ((Function.update_of_ne (Ne.symm same) _ _).trans arrived'),
        (advance_send ((other' _).trans here)).trans ?_⟩
      simp only [Function.update_of_ne same, Function.update_comm different,
        Function.update_comm same]
  · by_cases same : (j, dest') = (source, i)
    · obtain ⟨rfl, rfl⟩ := Prod.mk.inj same
      have queued : Function.update net.channels (j, dest') (net.channels (j, dest') ++ [message'])
          (j, dest') = message :: (rest ++ [message']) := by
        rw [Function.update_self, arrived, List.cons_append]
      refine ⟨_, advance_send ((other _).trans there),
        (advance_receive ((other' p').trans here) queued).trans ?_⟩
      simp only [Function.update_self, Function.update_idem, Function.update_comm different]
    · refine ⟨_, advance_send ((other _).trans there),
        (advance_receive ((other' p').trans here)
          ((Function.update_of_ne (Ne.symm same) _ _).trans arrived)).trans ?_⟩
      simp only [Function.update_of_ne same, Function.update_comm different,
        Function.update_comm same]
  · have apart : (source, i) ≠ (source', j) := fun same => different (congrArg Prod.snd same)
    refine ⟨_, advance_receive ((other _).trans there)
        ((Function.update_of_ne apart.symm _ _).trans arrived'),
      (advance_receive ((other' _).trans here)
        ((Function.update_of_ne apart _ _).trans arrived)).trans ?_⟩
    simp only [Function.update_comm different, Function.update_comm apart]

end Network

/-- The messages that are exchanged with one party. -/
def exchangedWith (i : ι) (l : List (ι × Msg)) : List Msg :=
  l.filterMap fun p => if p.1 = i then some p.2 else none

@[simp] theorem exchangedWith_nil (i : ι) : exchangedWith i ([] : List (ι × Msg)) = [] := rfl

@[simp] theorem exchangedWith_self (i : ι) (message : Msg) (l : List (ι × Msg)) :
    exchangedWith i ((i, message) :: l) = message :: exchangedWith i l := by
  simp [exchangedWith]

theorem exchangedWith_of_ne {i j : ι} (other : j ≠ i) (message : Msg) (l : List (ι × Msg)) :
    exchangedWith i ((j, message) :: l) = exchangedWith i l := by
  simp [exchangedWith, other]

theorem exchangedWith_append (i : ι) (l l' : List (ι × Msg)) :
    exchangedWith i (l ++ l') = exchangedWith i l ++ exchangedWith i l' := List.filterMap_append

/-- The channels after a party has received from them and sent on them. -/
def exchanged (i : ι) (channels : ι × ι → List Msg) (left : ι → List Msg)
    (sent : List (ι × Msg)) : ι × ι → List Msg := fun c =>
  if c.2 = i then left c.1
  else if c.1 = i then channels c ++ exchangedWith c.2 sent
  else channels c

/-- A program whose messages have all arrived runs on its own, and leaves the channels of
the others as they are. -/
theorem solo_runs {net : Network ι Msg ε α} {i : ι} {received sent : List (ι × Msg)}
    {p last : Program ι Msg ε α} (solo : Solo p received sent last) (here : net.programs i = p)
    (others : ∀ q ∈ sent, q.1 ≠ i) {left : ι → List Msg}
    (arrived : ∀ source, net.channels (source, i) = exchangedWith source received ++ left source) :
    ∃ steps, runs Network.advance steps net =
      some ⟨Function.update net.programs i last, exchanged i net.channels left sent⟩ := by
  induction solo generalizing net with
  | stop p =>
    refine ⟨[], congrArg some (Network.ext ?_ ?_)⟩
    · rw [← here, Function.update_eq_self]
    · funext ⟨source, target⟩
      by_cases incoming : target = i
      · subst incoming
        simpa [exchanged] using arrived source
      · simp [exchanged, incoming]
  | @send dest message p last received sent rest ih =>
    obtain ⟨apart, others'⟩ := List.forall_mem_cons.mp others
    obtain ⟨steps, ran⟩ := @ih ⟨Function.update net.programs i p, Function.update net.channels
      (i, dest) (net.channels (i, dest) ++ [message])⟩ (Function.update_self ..) others' (by
        intro source
        rw [← arrived source]
        exact Function.update_of_ne (fun same => apart (congrArg Prod.snd same).symm) _ _)
    refine ⟨i :: steps, runs_cons.mpr ⟨_, Network.advance_send here, ran.trans ?_⟩⟩
    refine congrArg some (Network.ext (Function.update_idem ..) (funext fun c => ?_))
    obtain ⟨source, target⟩ := c
    by_cases incoming : target = i
    · simp [exchanged, incoming]
    · by_cases outgoing : source = i
      · subst outgoing
        by_cases same : target = dest
        · subst same
          simp [exchanged, incoming]
        · simp [exchanged, incoming, same, exchangedWith_of_ne (Ne.symm same)]
      · simp [exchanged, incoming, outgoing]
  | @receive source message p last received sent rest ih =>
    have queued : net.channels (source, i) =
        message :: (exchangedWith source received ++ left source) := by
      rw [arrived, exchangedWith_self, List.cons_append]
    obtain ⟨steps, ran⟩ := @ih ⟨Function.update net.programs i (p message), Function.update
      net.channels (source, i) (exchangedWith source received ++ left source)⟩
      (Function.update_self ..) others (by
        intro source'
        by_cases same : source' = source
        · rw [same]
          exact Function.update_self ..
        · have apart : (source', i) ≠ (source, i) := fun both => same (congrArg Prod.fst both)
          refine (Function.update_of_ne apart _ _).trans ?_
          rw [arrived, exchangedWith_of_ne (Ne.symm same)])
    refine ⟨i :: steps, runs_cons.mpr ⟨_, Network.advance_receive here queued, ran.trans ?_⟩⟩
    refine congrArg some (Network.ext (Function.update_idem ..) (funext fun c => ?_))
    by_cases incoming : c.2 = i
    · simp [exchanged, incoming]
    · have apart : c ≠ (source, i) := fun same => incoming (congrArg Prod.snd same)
      simp [exchanged, incoming, Function.update_of_ne apart]

end Solo

section Star
variable {Msg ε α : Type}

/-- Party 0 exchanges messages with each of the others: `down` to them, `up` from them. -/
def star (hub : Program Nat Msg ε α) (spoke : Nat → Program Nat Msg ε α)
    (down up : Nat → List Msg) : Network Nat Msg ε α where
  programs
    | 0 => hub
    | j + 1 => spoke j
  channels
    | (0, j + 1) => down j
    | (j + 1, 0) => up j
    | _ => []

/-- The network takes steps to another one. -/
def Reaches (net net' : Network Nat Msg ε α) : Prop :=
  ∃ steps, runs Network.advance steps net = some net'

theorem Reaches.trans {a b c : Network Nat Msg ε α} (first : Reaches a b) (rest : Reaches b c) :
    Reaches a c := by
  obtain ⟨steps, ran⟩ := first
  obtain ⟨steps', ran'⟩ := rest
  exact ⟨steps ++ steps', (runs_append ran).trans ran'⟩

variable {hub hub' : Program Nat Msg ε α} {spoke spoke' : Nat → Program Nat Msg ε α}
variable {down up : Nat → List Msg}

/-- What is exchanged with the spokes, as the hub names them. -/
def toSpokes (l : List (Nat × Msg)) : List (Nat × Msg) := l.map fun p => (p.1 + 1, p.2)

theorem exchangedWith_toSpokes (j : Nat) (l : List (Nat × Msg)) :
    exchangedWith (j + 1) (toSpokes l) = exchangedWith j l := by
  rw [exchangedWith, toSpokes, List.filterMap_map, exchangedWith]
  congr 1
  funext p
  simp

theorem exchangedWith_range (f : Nat → Msg) (w j : Nat) :
    exchangedWith j ((List.range w).map fun i => (i, f i)) = if j < w then [f j] else [] := by
  induction w with
  | zero => rfl
  | succ w ih =>
    rw [List.range_succ, List.map_append, exchangedWith, List.filterMap_append]
    change exchangedWith j _ ++ exchangedWith j [(w, f w)] = _
    rw [ih]
    by_cases last : w = j
    · subst last
      simp
    · rw [exchangedWith_of_ne last, exchangedWith_nil, List.append_nil]
      exact if_congr (by omega) rfl rfl

/-- The hub runs on what the spokes have sent. -/
theorem star_hub {received sent : List (Nat × Msg)}
    (solo : Solo hub (toSpokes received) (toSpokes sent) hub') :
    Reaches (star hub spoke down fun j => exchangedWith j received ++ up j)
      (star hub' spoke (fun j => down j ++ exchangedWith j sent) up) := by
  have none : exchangedWith 0 (toSpokes received) = [] := by
    simp [exchangedWith, toSpokes]
  obtain ⟨steps, ran⟩ := @solo_runs _ Msg ε α _ (star hub spoke down fun j =>
    exchangedWith j received ++ up j) 0 _ _ _ _ solo rfl (by
      intro q member
      obtain ⟨p, _, rfl⟩ := List.mem_map.mp member
      exact Nat.succ_ne_zero p.1) (fun | 0 => [] | j + 1 => up j) (by
      rintro (_ | j)
      · rw [none]
        rfl
      · rw [exchangedWith_toSpokes]
        rfl)
  refine ⟨steps, ran.trans (congrArg some (Network.ext (funext ?_) (funext ?_)))⟩
  · rintro (_ | j) <;> rfl
  · rintro ⟨_ | i, _ | j⟩
    · rfl
    · simp [exchanged, exchangedWith_toSpokes, star]
    · rfl
    · rfl

theorem exchangedWith_hub (l : List Msg) : exchangedWith 0 (l.map ((0 : Nat), ·)) = l := by
  simp [exchangedWith, List.filterMap_map]

theorem exchangedWith_spoke (j : Nat) (l : List Msg) :
    exchangedWith (j + 1) (l.map ((0 : Nat), ·)) = [] := by
  simp [exchangedWith, List.filterMap_map]

/-- One spoke runs on what the hub has sent it. -/
theorem star_spoke {j : Nat} {received sent : List Msg} {last : Program Nat Msg ε α}
    (solo : Solo (spoke j) (received.map ((0 : Nat), ·)) (sent.map ((0 : Nat), ·)) last)
    (arrived : down j = received) :
    Reaches (star hub spoke down up) (star hub (Function.update spoke j last)
      (Function.update down j []) (Function.update up j (up j ++ sent))) := by
  obtain ⟨steps, ran⟩ := @solo_runs _ Msg ε α _ (star hub spoke down up) (j + 1) _ _ _ _ solo rfl
    (by
      intro q member
      obtain ⟨message, _, rfl⟩ := List.mem_map.mp member
      exact (Nat.succ_ne_zero j).symm) (fun _ => []) (by
      rintro (_ | i)
      · rw [exchangedWith_hub, List.append_nil]
        exact arrived
      · rw [exchangedWith_spoke]
        rfl)
  refine ⟨steps, ran.trans (congrArg some (Network.ext (funext ?_) (funext ?_)))⟩
  · rintro (_ | i)
    · rfl
    · by_cases same : i = j
      · simp [same, star]
      · simp [same, star]
  · rintro ⟨_ | i, _ | k⟩
    · rfl
    · by_cases same : k = j
      · simp [exchanged, same, star]
      · simp [exchanged, same, star]
    · by_cases same : i = j
      · simp [exchanged, same, star, exchangedWith_hub]
      · simp [exchanged, same, star]
    · simp [exchanged, star, exchangedWith_spoke]

theorem update_below {γ : Type} (f g : Nat → γ) (n : Nat) :
    Function.update (fun j => if j < n then f j else g j) n (f n) =
      fun j => if j < n + 1 then f j else g j := by
  funext j
  rcases Nat.lt_trichotomy j n with before | rfl | later
  · rw [Function.update_of_ne (by omega), if_pos before, if_pos (by omega)]
  · rw [Function.update_self, if_pos (by omega)]
  · rw [Function.update_of_ne (by omega), if_neg (by omega), if_neg (by omega)]

/-- The first spokes run one after another. -/
theorem star_spokes {n : Nat} {received sent : Nat → List Msg}
    (solo : ∀ j < n, Solo (spoke j) ((received j).map ((0 : Nat), ·)) ((sent j).map ((0 : Nat), ·))
      (spoke' j)) (arrived : ∀ j < n, down j = received j) :
    Reaches (star hub spoke down up)
      (star hub (fun j => if j < n then spoke' j else spoke j)
        (fun j => if j < n then [] else down j) fun j => if j < n then up j ++ sent j else up j) := by
  induction n with
  | zero => exact ⟨[], rfl⟩
  | succ n ih =>
    have first := ih (fun j inside => solo j (by omega)) fun j inside => arrived j (by omega)
    have here := @star_spoke Msg ε α hub (fun j => if j < n then spoke' j else spoke j)
      (fun j => if j < n then [] else down j) (fun j => if j < n then up j ++ sent j else up j)
      n (received n) (sent n) (spoke' n)
      (by simpa using solo n n.lt_succ_self) (by simpa using arrived n n.lt_succ_self)
    rw [if_neg n.lt_irrefl, update_below (fun j => up j ++ sent j) up n,
      update_below spoke' spoke n, update_below (fun _ => []) down n] at here
    exact first.trans here

/-- The hub takes what the spokes have sent and sends to each, and each answers. -/
theorem star_round {n : Nat} {received sent : List (Nat × Msg)} {asked answered : Nat → List Msg}
    (hubRuns : Solo hub (toSpokes received) (toSpokes sent) hub')
    (asks : ∀ j, exchangedWith j sent = if j < n then asked j else [])
    (spokesRun : ∀ j < n, Solo (spoke j) ((asked j).map ((0 : Nat), ·))
      ((answered j).map ((0 : Nat), ·)) (spoke' j)) :
    Reaches (star hub spoke (fun _ => []) fun j => exchangedWith j received)
      (star hub' (fun j => if j < n then spoke' j else spoke j) (fun _ => [])
        fun j => if j < n then answered j else []) := by
  have first := @star_hub Msg ε α hub hub' spoke (fun _ => []) (fun _ => []) received sent hubRuns
  have rest := @star_spokes Msg ε α hub' spoke spoke' (fun j => exchangedWith j sent) (fun _ => [])
    n asked answered spokesRun fun j inside => by rw [asks, if_pos inside]
  simp only [List.append_nil, List.nil_append] at first rest
  refine first.trans ?_
  have taken : (fun j => if j < n then [] else exchangedWith j sent) = fun _ => [] := by
    funext j
    rw [asks]
    split <;> rfl
  rwa [taken] at rest

end Star
end Networks
