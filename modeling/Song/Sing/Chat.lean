import Mathlib.Data.List.Induction
import Mathlib.Data.List.TakeDrop
import Song.Error

/-!
# The chat service (`chat_service.cpp`)

Messages are numbered from 1 on as they are sent; clearing the history starts again at 1. So what
the service holds is what was sent since then, numbered (`run_eq`), and a reader who asks for the
messages after the last one he has, page by page, misses none while others go on sending
(`pages_complete`).
-/

namespace Song.Chat

structure Message where
  id : Int
  sender : Str
  content : Str
  timestamp : Int
  deriving DecidableEq

structure SendResult where
  success : Bool
  messageId : Int
  timestamp : Int
  deriving DecidableEq

structure HistoryResult where
  messages : List Message
  totalCount : Int
  hasMore : Bool
  deriving DecidableEq

/-- `ChatImpl`. -/
structure Service where
  messages : List Message
  nextId : Int
  deriving DecidableEq

/-- `static_cast<i32>` of a size. -/
def toI32 (n : Nat) : Int := (Int32.ofNat n).toInt

namespace Service

def empty : Service := ⟨[], 1⟩

/-- `now` is the reading of the clock. -/
def send (now : Int) (sender content : Str) (s : Service) : SendResult × Service :=
  (⟨true, s.nextId, now⟩, ⟨s.messages ++ [⟨s.nextId, sender, content, now⟩], s.nextId + 1⟩)

def getHistory (count : Int) (s : Service) : HistoryResult :=
  let totalCount := toI32 s.messages.length
  if count ≤ 0 then ⟨[], totalCount, !s.messages.isEmpty⟩
  else if count.toNat < s.messages.length then
    ⟨s.messages.drop (s.messages.length - count.toNat), totalCount, true⟩
  else ⟨s.messages, totalCount, false⟩

def getMessagesAfter (afterId count : Int) (s : Service) : HistoryResult :=
  let totalCount := toI32 s.messages.length
  match s.messages.dropWhile fun m => m.id != afterId with
  | [] => ⟨[], totalCount, false⟩
  | _ :: rest => ⟨rest.take count.toNat, totalCount, !(rest.drop count.toNat).isEmpty⟩

def clearHistory (s : Service) : Int × Service := (toI32 s.messages.length, empty)

def getMessageCount (s : Service) : Int := toI32 s.messages.length

def messageExists (messageId : Int) (s : Service) : Bool := s.messages.any (·.id == messageId)

end Service

/-! ## Runs -/

/-- What someone sends, and when. -/
structure Post where
  now : Int
  sender : Str
  content : Str

inductive Operation where
  | send (post : Post)
  | clearHistory

def step (s : Service) : Operation → Service
  | .send post => (s.send post.now post.sender post.content).2
  | .clearHistory => s.clearHistory.2

def run (ops : List Operation) : Service := ops.foldl step .empty

def keep (sent : List Post) : Operation → List Post
  | .send post => sent ++ [post]
  | .clearHistory => []

/-- What was sent since the history was last cleared. -/
def posts (ops : List Operation) : List Post := ops.foldl keep []

def Post.message (post : Post) (pos : Nat) : Message :=
  ⟨pos + 1, post.sender, post.content, post.now⟩

def numbered (posts : List Post) : List Message := posts.mapIdx fun pos post => post.message pos

variable {sent : List Post} {s : Service}

theorem length_numbered : (numbered sent).length = sent.length := List.length_mapIdx

theorem numbered_concat (post : Post) :
    numbered (sent ++ [post]) = numbered sent ++ [post.message sent.length] :=
  List.mapIdx_concat

theorem run_eq (ops : List Operation) :
    run ops = ⟨numbered (posts ops), (posts ops).length + 1⟩ := by
  induction ops using List.reverseRecOn with
  | nil => rfl
  | append_singleton ops op ih =>
    have hrun : run (ops ++ [op]) = step (run ops) op := List.foldl_concat ..
    have hposts : posts (ops ++ [op]) = keep (posts ops) op := List.foldl_concat ..
    rw [hrun, hposts, ih]
    cases op with
    | send post =>
      rw [keep, numbered_concat, List.length_append, List.length_singleton]
      rfl
    | clearHistory => rfl

/-! ## What the queries answer -/

/-- The message with an id, and those after it. -/
theorem dropWhile_numbered (sent : List Post) (id : Int) :
    (numbered sent).dropWhile (fun m => m.id != id) =
      if 1 ≤ id then (numbered sent).drop (id.toNat - 1) else [] := by
  have hgen : ∀ k : Nat,
      (sent.mapIdx fun pos post => post.message (pos + k)).dropWhile (fun m => m.id != id) =
        if k + 1 ≤ id then (sent.mapIdx fun pos post => post.message (pos + k)).drop
          (id.toNat - (k + 1)) else [] := by
    induction sent with
    | nil => intro k; simp
    | cons post sent ih =>
      intro k
      have hrest : (sent.mapIdx fun pos post => post.message (pos + 1 + k)) =
          sent.mapIdx fun pos post => post.message (pos + (k + 1)) := by
        congr 1
        funext pos post
        congr 1
        omega
      rw [List.mapIdx_cons, List.dropWhile_cons, hrest, ih (k + 1)]
      have hid : (post.message (0 + k)).id = k + 1 := by simp [Post.message]
      rw [hid]
      by_cases heq : (k + 1 : Int) = id
      · subst heq
        rw [if_neg (by simp), if_pos (Int.le_refl _)]
        simp
      · rw [if_pos (by simpa using heq)]
        by_cases hlt : (k + 1 : Int) ≤ id
        · rw [if_pos (by omega), if_pos (by omega),
            show id.toNat - (k + 1) = (id.toNat - (k + 1 + 1)) + 1 by omega, List.drop_succ_cons]
        · rw [if_neg (by omega), if_neg (by omega)]
  exact hgen 0

/-- The answers of a service that holds what was sent, numbered. -/
structure Answers (sent : List Post) (s : Service) : Prop where
  history : ∀ count : Int, (s.getHistory count).messages =
      (numbered sent).drop (sent.length - count.toNat) ∧
    ((s.getHistory count).hasMore = true ↔ count.toNat < sent.length)
  after : ∀ id count : Int, 1 ≤ id → id ≤ sent.length →
    (s.getMessagesAfter id count).messages =
        ((numbered sent).drop id.toNat).take count.toNat ∧
      ((s.getMessagesAfter id count).hasMore = true ↔ id.toNat + count.toNat < sent.length)
  unknown : ∀ id count : Int, ¬ (1 ≤ id ∧ id ≤ sent.length) →
    (s.getMessagesAfter id count).messages = [] ∧ (s.getMessagesAfter id count).hasMore = false
  exists_iff : ∀ id : Int, s.messageExists id = true ↔ 1 ≤ id ∧ id ≤ sent.length
  next : ∀ post : Post, (s.send post.now post.sender post.content).1 =
    ⟨true, sent.length + 1, post.now⟩

theorem answers_numbered (sent : List Post) :
    Answers sent ⟨numbered sent, sent.length + 1⟩ where
  history count := by
    have hlen := @length_numbered sent
    unfold Service.getHistory
    dsimp only
    split
    · next hle =>
      rw [show count.toNat = 0 by omega, Nat.sub_zero, List.drop_of_length_le (by omega)]
      refine ⟨rfl, ?_⟩
      cases sent with
      | nil => simp [numbered]
      | cons post sent => simp [numbered]
    · split
      · next hlt =>
        rw [hlen] at hlt
        rw [hlen]
        exact ⟨rfl, iff_of_true rfl hlt⟩
      · next hge =>
        rw [hlen] at hge
        rw [show sent.length - count.toNat = 0 by omega, List.drop_zero]
        exact ⟨rfl, iff_of_false Bool.false_ne_true hge⟩
  after id count hpos hle := by
    have hlt : id.toNat - 1 < (numbered sent).length := by
      rw [length_numbered]
      omega
    unfold Service.getMessagesAfter
    dsimp only
    rw [dropWhile_numbered, if_pos hpos, List.drop_eq_getElem_cons hlt]
    dsimp only
    rw [show id.toNat - 1 + 1 = id.toNat by omega]
    refine ⟨rfl, ?_⟩
    rw [List.drop_drop, Bool.not_eq_true', List.isEmpty_eq_false_iff, Ne,
      List.drop_eq_nil_iff, length_numbered]
    omega
  unknown id count hout := by
    have hnil : (numbered sent).dropWhile (fun m => m.id != id) = [] := by
      rw [dropWhile_numbered]
      split
      · next hpos =>
        refine List.drop_of_length_le ?_
        rw [length_numbered]
        omega
      · rfl
    unfold Service.getMessagesAfter
    dsimp only
    rw [hnil]
    exact ⟨rfl, rfl⟩
  exists_iff id := by
    rw [Service.messageExists, List.any_eq_true]
    constructor
    · rintro ⟨m, hm, hid⟩
      obtain ⟨pos, hpos, rfl⟩ := List.mem_mapIdx.mp hm
      have heq := eq_of_beq hid
      rw [← heq, Post.message]
      dsimp only
      omega
    · rintro ⟨hpos, hle⟩
      have hlt : id.toNat - 1 < sent.length := by omega
      refine ⟨_, List.mem_mapIdx.mpr ⟨id.toNat - 1, hlt, rfl⟩, ?_⟩
      rw [Post.message, beq_iff_eq]
      dsimp only
      omega
  next _ := rfl

/-- Someone who reads on behind the last message he has. -/
structure Reader where
  cursor : Int
  got : List Message
  deriving DecidableEq

def Reader.take (r : Reader) (page : HistoryResult) : Reader :=
  ⟨(page.messages.getLast?.map Message.id).getD r.cursor, r.got ++ page.messages⟩

/-- Others send, and the reader asks for a page. -/
inductive Event where
  | send (post : Post)
  | page (count : Int)

def turn (x : Service × Reader) : Event → Service × Reader
  | .send post => (step x.1 (.send post), x.2)
  | .page count => (x.1, x.2.take (x.1.getMessagesAfter x.2.cursor count))

/-- From the message `start` on. -/
def reading (ops : List Operation) (start : Message) (events : List Event) : Service × Reader :=
  events.foldl turn (run ops, ⟨start.id, []⟩)

/-- The messages after one. -/
def Service.behind (s : Service) (start : Message) : List Message :=
  s.messages.filter fun m => start.id < m.id

theorem behind_numbered {pos : Nat} (post : Post) {next : Int} :
    Service.behind ⟨numbered sent, next⟩ (post.message pos) = (numbered sent).drop (pos + 1) := by
  have hid : ∀ i (hi : i < (numbered sent).length), ((numbered sent)[i]).id = i + 1 := by
    intro i hi
    simp [numbered, Post.message]
  show (numbered sent).filter (fun m => (pos + 1 : Int) < m.id) = _
  conv_lhs => rw [← List.take_append_drop (pos + 1) (numbered sent)]
  rw [List.filter_append, List.filter_eq_nil_iff.mpr, List.filter_eq_self.mpr, List.nil_append]
  · intro m hm
    obtain ⟨i, hi, rfl⟩ := List.mem_drop_iff_getElem.mp hm
    rw [decide_eq_true_eq, hid]
    omega
  · intro m hm
    obtain ⟨i, hi, rfl⟩ := List.mem_take_iff_getElem.mp hm
    rw [decide_eq_true_eq, hid]
    omega

/-- The reader has the first `k` messages behind the one at `pos`. -/
structure Stands (pos k : Nat) (x : Service × Reader) : Prop where
  numbers : ∃ sent : List Post, x.1 = ⟨numbered sent, sent.length + 1⟩
  within : pos + 1 + k ≤ x.1.messages.length
  cursor : x.2.cursor = pos + 1 + k
  got : x.2.got = (x.1.messages.drop (pos + 1)).take k

variable {pos k : Nat} {x : Service × Reader}

/-- The next page: the messages that follow those he has, and whether it is the last. -/
theorem Stands.page (h : Stands pos k x) (count : Int) :
    ∃ n, pos + 1 + k + n ≤ x.1.messages.length ∧
      (x.1.getMessagesAfter x.2.cursor count).messages =
        (x.1.messages.drop (pos + 1 + k)).take n ∧
      ((x.1.getMessagesAfter x.2.cursor count).hasMore = true ↔
        pos + 1 + k + n < x.1.messages.length) := by
  obtain ⟨sent, hs⟩ := h.numbers
  have hlen := @length_numbered sent
  have hle := h.within
  rw [hs, hlen] at hle
  obtain ⟨hmessages, hmore⟩ := (answers_numbered sent).after x.2.cursor count
    (by rw [h.cursor]; omega) (by rw [h.cursor]; omega)
  have hcursor : x.2.cursor.toNat = pos + 1 + k := by
    rw [h.cursor]
    omega
  rw [hcursor] at hmessages hmore
  refine ⟨min count.toNat (sent.length - (pos + 1 + k)), ?_, ?_, ?_⟩
  · rw [hs, hlen]
    omega
  · rw [hs, hmessages, List.take_eq_take_iff, List.length_drop, hlen]
    omega
  · rw [hs, hmore, hlen]
    omega

/-- With that page he has so many more. -/
theorem Stands.got_append (h : Stands pos k x) (n : Nat) :
    x.2.got ++ (x.1.messages.drop (pos + 1 + k)).take n =
      (x.1.messages.drop (pos + 1)).take (k + n) := by
  rw [h.got, List.take_add, List.drop_drop]

theorem Stands.turn (h : Stands pos k x) (e : Event) : ∃ k, Stands pos k (turn x e) := by
  obtain ⟨sent, hs⟩ := h.numbers
  have hlen := @length_numbered sent
  cases e with
  | send post =>
    have hstep : step x.1 (.send post) =
        ⟨numbered (sent ++ [post]), (sent ++ [post]).length + 1⟩ := by
      rw [hs, numbered_concat, List.length_append, List.length_singleton]
      rfl
    have hle := h.within
    have hgot := h.got
    rw [hs] at hle hgot
    refine ⟨k, ⟨sent ++ [post], hstep⟩, ?_, h.cursor, ?_⟩
    · show pos + 1 + k ≤ (step x.1 (.send post)).messages.length
      rw [hstep, numbered_concat, List.length_append]
      exact Nat.le_add_right_of_le hle
    · show x.2.got = ((step x.1 (.send post)).messages.drop (pos + 1)).take k
      dsimp only at hle
      rw [hstep, numbered_concat, List.drop_append_of_le_length (by omega),
        List.take_append_of_le_length (by rw [List.length_drop]; omega)]
      exact hgot
  | page count =>
    obtain ⟨n, hle, hpage, -⟩ := h.page count
    refine ⟨k + n, ⟨sent, hs⟩, Nat.add_assoc .. ▸ hle, ?_, ?_⟩
    · show (Option.map Message.id (x.1.getMessagesAfter x.2.cursor count).messages.getLast?).getD
        x.2.cursor = (pos + 1 + (k + n : Nat) : Int)
      rw [hpage, List.getLast?_eq_getElem?, List.length_take, List.length_drop]
      cases n with
      | zero =>
        rw [List.take_zero, List.getElem?_nil, Option.map_none, Option.getD_none, h.cursor]
        rfl
      | succ n =>
        rw [List.getElem?_take_of_lt (by omega), List.getElem?_drop,
          show pos + 1 + k + (min (n + 1) (x.1.messages.length - (pos + 1 + k)) - 1) =
            pos + 1 + k + n by omega, hs, numbered, List.getElem?_mapIdx]
        rw [hs, hlen] at hle
        rw [List.getElem?_eq_getElem (by omega)]
        simp only [Option.map_some, Option.getD_some, Post.message]
        omega
    · show x.2.got ++ (x.1.getMessagesAfter x.2.cursor count).messages = _
      rw [hpage]
      exact h.got_append n

theorem stands_reading {ops : List Operation} {start : Message} (hpos : pos < (posts ops).length)
    (hpost : (posts ops)[pos].message pos = start) (events : List Event) :
    ∃ k, Stands pos k (reading ops start events) := by
  have hrun := run_eq ops
  induction events using List.reverseRecOn with
  | nil =>
    refine ⟨0, ⟨_, hrun⟩, ?_, ?_, rfl⟩
    · show pos + 1 + 0 ≤ (run ops).messages.length
      rw [hrun, length_numbered]
      exact hpos
    · show start.id = _
      rw [← hpost]
      exact (Int.add_zero _).symm
  | append_singleton events e ih =>
    obtain ⟨k, hk⟩ := ih
    rw [reading, List.foldl_concat]
    exact hk.turn e

/-- Whoever reads on page by page behind a message has the messages after it from the first one on,
each once and in order, whatever is sent meanwhile; and a page says that there is no more exactly
when with it he has them all. -/
theorem pages_complete (ops : List Operation) (start : Message)
    (hstart : start ∈ (run ops).messages) (events : List Event) (s : Service) (r : Reader)
    (h : reading ops start events = (s, r)) (count : Int) (page : HistoryResult)
    (hp : s.getMessagesAfter r.cursor count = page) :
    r.got ++ page.messages <+: s.behind start ∧
      (page.hasMore = false ↔ r.got ++ page.messages = s.behind start) := by
  have hrun := run_eq ops
  obtain ⟨pos, hpos, hpost⟩ : ∃ pos, ∃ h : pos < (posts ops).length,
      (posts ops)[pos].message pos = start := by
    rw [hrun] at hstart
    exact List.mem_mapIdx.mp hstart
  obtain ⟨k, hk⟩ := stands_reading hpos hpost events
  rw [h] at hk
  obtain ⟨n, hle, hpage, hmore⟩ := hk.page count
  dsimp only at hle hpage hmore
  rw [hp] at hpage hmore
  have hbehind : s.behind start = s.messages.drop (pos + 1) := by
    obtain ⟨sent, hs⟩ := hk.numbers
    dsimp only at hs
    rw [hs, ← hpost]
    exact behind_numbered _
  have hgot := hk.got_append n
  dsimp only at hgot
  rw [hpage, hgot, hbehind]
  refine ⟨List.take_prefix _ _, ?_⟩
  rw [← Bool.not_eq_true, hmore, List.take_eq_self_iff, List.length_drop]
  omega

def greeting (now : Int) : Post := ⟨now, lit "ann", lit "hello"⟩

def greetings : List Operation := [.send (greeting 3), .send (greeting 4)]

/-- A page of one message, and a third message after it. -/
def visit : List Event := [.page 1, .send (greeting 5)]

theorem pages_complete_visit : ∃ s r page,
    reading greetings ((greeting 3).message 0) visit = (s, r) ∧
    s.getMessagesAfter r.cursor 2 = page ∧ r.got = [(greeting 4).message 1] ∧
    (r.got ++ page.messages <+: s.behind ((greeting 3).message 0) ∧
      (page.hasMore = false ↔ r.got ++ page.messages = s.behind ((greeting 3).message 0))) :=
  ⟨_, _, _, rfl, rfl, rfl, pages_complete greetings ((greeting 3).message 0) (by decide) visit _ _
    rfl 2 _ rfl⟩

end Song.Chat
