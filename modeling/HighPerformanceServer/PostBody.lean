import HighPerformanceServer.Pipelining
/-!
# The body of a `POST`

The head of a request ends with its blank line. The header parser leaves its last state only when
one more byte is there (requestData.cpp:333-349), so where a read ends with the blank line,
`content` keeps the LF CR LF in front of the body, and `content.size()` counts them.

| here | there |
| --- | --- |
| `PostHead`  | what `parse_request_line` and `parse_request_head` have to accept |
| `bodyTests` | `content.size() < content_length` (:167), in the calls of one request |
-/

namespace HPServer

open CppStd

/-! ## What has been received -/

/-- Behind the blank line, after the `k`-th call: `b₁` came with the head, each piece of `ps` in a
read of its own. -/
def received (b₁ : Bytes) (ps : List Bytes) (k : Nat) : Bytes := b₁ ++ (ps.take k).flatten

/-- The `k`-th call is the first that has received `n` bytes. -/
def FirstWhole (n : Nat) (b₁ : Bytes) (ps : List Bytes) (k : Nat) : Prop :=
  k ≤ ps.length ∧ n ≤ (received b₁ ps k).length ∧ ∀ j, j < k → (received b₁ ps j).length < n

theorem received_mono (b₁ : Bytes) (ps : List Bytes) {j k : Nat} (h : j ≤ k) :
    (received b₁ ps j).length ≤ (received b₁ ps k).length := by
  have hsplit : ps.take k = ps.take j ++ (ps.drop j).take (k - j) := by
    rw [← List.take_add, Nat.add_sub_cancel' h]
  rw [received, received, hsplit, List.flatten_append, ← List.append_assoc]
  simp

theorem received_cons (b₁ p : Bytes) (ps : List Bytes) (k : Nat) :
    received b₁ (p :: ps) (k + 1) = received (b₁ ++ p) ps k := by
  simp [received]

theorem firstWhole_zero {n : Nat} {b₁ : Bytes} {ps : List Bytes} :
    FirstWhole n b₁ ps 0 ↔ n ≤ b₁.length := by
  simp [FirstWhole, received]

/-- As long as the body is not whole, the next piece belongs to it. -/
theorem firstWhole_succ {n : Nat} {b₁ p : Bytes} {ps : List Bytes} {k : Nat} :
    FirstWhole n b₁ (p :: ps) (k + 1) ↔ b₁.length < n ∧ FirstWhole n (b₁ ++ p) ps k := by
  unfold FirstWhole
  rw [received_cons, List.length_cons]
  constructor
  · rintro ⟨hk, hn, hbefore⟩
    refine ⟨?_, by omega, hn, fun j hj => ?_⟩
    · have := hbefore 0 (by omega)
      simpa [received] using this
    · rw [← received_cons]
      exact hbefore (j + 1) (by omega)
  · rintro ⟨hlt, hk, hn, hbefore⟩
    refine ⟨by omega, hn, fun j hj => ?_⟩
    cases j with
    | zero => simpa [received] using hlt
    | succ j =>
      rw [received_cons]
      exact hbefore j (by omega)

/-! ## What is counted -/

/-- The contents that the body stage measures, in the calls of one request, and whether the call
goes on to `STATE_ANALYSIS`. `r` is the object as the first call gets it; between calls its timer is
separated (main.cpp:124). -/
def bodyTests : RequestData → List CallEnv → List (Bytes × Bool)
  | _, [] => []
  | r, env :: envs =>
    match parseStages env r with
    | .error _ => []
    | .ok a =>
      match bodyStage a with
      | .ok a' => [(a.content, a'.state = .analysis)]
      | .error _ => (a.content, false) ::
        match (handleRequest env r).2 with
        | .kept r' => bodyTests r'.separateTimer envs
        | .halted _ | .deleted | .rearmFailed => []

def EntersAnalysisAt (r : RequestData) (envs : List CallEnv) (k : Nat) : Prop :=
  ∃ content, (bodyTests r envs)[k]? = some (content, true)

/-- The tests, while the pieces come in behind `content`. -/
def pieceTests (n : Nat) : Bytes → List Bytes → List (Bytes × Bool)
  | content, [] => [(content, n ≤ content.length)]
  | content, p :: ps =>
    if n ≤ content.length then [(content, true)] else (content, false) :: pieceTests n (content ++ p) ps

theorem pieceTests_content {n : Nat} {ps : List Bytes} : ∀ {content x : Bytes} {k : Nat} {whole : Bool},
    (pieceTests n content ps)[k]? = some (x, whole) → x = received content ps k := by
  induction ps with
  | nil =>
    intro content x k whole h
    cases k with
    | zero =>
      rw [pieceTests, List.getElem?_cons_zero, Option.some.injEq, Prod.mk.injEq] at h
      simp [received, ← h.1]
    | succ k => simp [pieceTests] at h
  | cons p ps ih =>
    intro content x k whole h
    rw [pieceTests] at h
    cases k with
    | zero =>
      have hx : x = content := by split at h <;> simp at h <;> exact h.1.symm
      simp [received, hx]
    | succ k =>
      split at h
      · simp at h
      · rw [List.getElem?_cons_succ] at h
        rw [received_cons]
        exact ih h

/-- The test succeeds in the call that makes the content long enough. -/
theorem pieceTests_true {n : Nat} {ps : List Bytes} : ∀ {content : Bytes} {k : Nat},
    (∃ x, (pieceTests n content ps)[k]? = some (x, true)) ↔ FirstWhole n content ps k := by
  induction ps with
  | nil =>
    intro content k
    cases k with
    | zero => simp [pieceTests, firstWhole_zero]
    | succ k => simp [pieceTests, FirstWhole]
  | cons p ps ih =>
    intro content k
    rw [pieceTests]
    by_cases hle : n ≤ content.length
    · rw [if_pos hle]
      cases k with
      | zero => simp [firstWhole_zero, hle]
      | succ k =>
        rw [firstWhole_succ]
        have : ¬ content.length < n := by omega
        simp [this]
    · rw [if_neg hle]
      cases k with
      | zero => simp [firstWhole_zero, hle]
      | succ k =>
        rw [firstWhole_succ, List.getElem?_cons_succ, ih]
        have : content.length < n := by omega
        simp [this]

/-! ## One call -/

section Call

variable {env : CallEnv} {r : RequestData} {p v : Bytes} {n : Nat}

/-- A piece of the body is appended, and nothing is parsed. -/
theorem parseStages_piece (hs : r.state = .recvBody) (hd : env.Delivers p) :
    parseStages env r = .ok { r with content := r.content ++ p } := by
  rw [parseStages, (readStage_delivers hd r).2]
  simp only [bind, Except.bind]
  rw [uriStage, if_neg (by dsimp only; rw [hs]; simp)]
  dsimp only
  rw [headStage, if_neg (by dsimp only; rw [hs]; simp)]

variable (hs : r.state = .recvBody) (hv : r.headers.lookup (ascii "Content-length") = some v)
  (hn : stoi v = .ok n)

include hs hv hn

theorem bodyStage_whole (hle : n ≤ r.content.length) : bodyStage r = .ok { r with state := .analysis } := by
  have hsize : toSize n = n := toSize_natCast (by have := (stoi_range hn).2; omega)
  rw [bodyStage, if_pos hs, hv]
  simp only [hn, hsize]
  rw [if_neg (by omega)]

theorem bodyStage_part (hlt : r.content.length < n) : bodyStage r = .error (.brk false r) := by
  have hsize : toSize n = n := toSize_natCast (by have := (stoi_range hn).2; omega)
  rw [bodyStage, if_pos hs, hv]
  simp only [hn, hsize]
  rw [if_pos hlt]

end Call

/-! ## The calls of one request -/

section Run

variable {v : Bytes} {n : Nat}

/-- A call that does not answer goes on to the next one, if there is one and the object is armed
again. -/
theorem bodyTests_cons {env : CallEnv} {r a : RequestData} {envs : List CallEnv}
    (hparse : parseStages env r = .ok a) (hs : a.state = .recvBody)
    (hv : a.headers.lookup (ascii "Content-length") = some v) (hn : stoi v = .ok n)
    (hmod : envs = [] ∨ env.epollMod = true) :
    bodyTests r (env :: envs) =
      if n ≤ a.content.length then [(a.content, true)]
      else (a.content, false) :: bodyTests { a with timer := none } envs := by
  rw [bodyTests, hparse]
  dsimp only
  by_cases hle : n ≤ a.content.length
  · rw [bodyStage_whole hs hv hn hle, if_pos hle]
    simp
  · have hpart := bodyStage_part hs hv hn (Nat.lt_of_not_le hle)
    have hfate : (handleRequest env r).2 = rearm env a := by
      have hserve : serve env r = ⟨[], .rearm a⟩ := by
        rw [serve, hparse]
        simp only [bodyOnward, hpart, leave, hs]
        rfl
      rw [handleRequest, hserve]
    rw [hpart, if_neg hle, hfate, rearm]
    rcases hmod with rfl | hmod
    · cases env.epollMod <;> simp [bodyTests]
    · rw [if_pos hmod]
      rfl

/-- **The calls** measure the content of the first and the pieces of the others behind it. -/
theorem bodyTests_pieces {ps : List Bytes} : ∀ {envs : List CallEnv} {env : CallEnv} {r a : RequestData},
    List.Forall₂ CallEnv.Delivers envs ps → (∀ e ∈ (env :: envs).dropLast, e.epollMod = true) →
    parseStages env r = .ok a → a.state = .recvBody →
    a.headers.lookup (ascii "Content-length") = some v → stoi v = .ok n →
    bodyTests r (env :: envs) = pieceTests n a.content ps := by
  induction ps with
  | nil =>
    intro envs env r a hps hmod hparse hs hv hn
    cases hps
    rw [bodyTests_cons hparse hs hv hn (Or.inl rfl), bodyTests, pieceTests]
    by_cases hle : n ≤ a.content.length
    · simp [hle]
    · simp [hle]
  | cons p ps ih =>
    intro envs env r a hps hmod hparse hs hv hn
    cases hps with
    | cons hdelivers hrest =>
      rw [List.dropLast_cons_cons] at hmod
      rw [bodyTests_cons hparse hs hv hn (Or.inr (hmod env List.mem_cons_self)), pieceTests]
      by_cases hle : n ≤ a.content.length
      · rw [if_pos hle, if_pos hle]
      · rw [if_neg hle, if_neg hle]
        have hpiece := parseStages_piece (r := { a with timer := none }) hs hdelivers
        exact congrArg _ (ih hrest (fun e he => hmod e (List.mem_cons_of_mem env he)) hpiece hs hv hn)

end Run

/-! ## The head -/

/-- The head of a `POST` that declares `n` bytes, as `c` reads it: request line and header section,
up to and with the blank line. -/
structure PostHead (c : RequestData) (T : Bytes) (n : Nat) : Prop where
  accepted : ∃ a v, readHead c T = .ok a ∧ a.method = .post ∧
    a.headers.lookup (ascii "Content-length") = some v ∧ stoi v = .ok n
  shortest : ∀ T' t, T = T' ++ t → t ≠ [] → ∀ a, readHead c T' ≠ .ok a

/-- It ends with the blank line, and what is behind it is left in `content`. -/
theorem PostHead.leaves {c : RequestData} {T : Bytes} {n : Nat} (h : PostHead c T n) (hc : Idle c)
    (hlen : T.length < 2147483648) :
    EndsBlank T ∧ ∃ (a : RequestData) (v : Bytes), a.state = .recvBody ∧ a.headers.lookup (ascii "Content-length") = some v ∧
      stoi v = .ok n ∧
      ∀ t, (T ++ t).length < 2147483648 → readHead c (T ++ t) = .ok { a with content := leftover t } := by
  obtain ⟨a, v, hhead, hpost, hv, hn⟩ := h.accepted
  obtain ⟨p, t, hp, -, hblank, -, hs, happend⟩ := readHead_append hc hlen hhead
  have ht : t = [] := by
    by_contra hne
    have hshort := happend [] (by
      rw [hp, List.length_append] at hlen
      rw [List.append_nil]
      omega)
    rw [List.append_nil] at hshort
    exact h.shortest p t hp hne _ hshort
  rw [ht, List.append_nil] at hp
  subst hp
  exact ⟨hblank, a, v, hs hpost, hv, hn, happend⟩

/-- The calls of a `POST`: what stands in `content` behind the first, and the pieces of the others. -/
theorem PostHead.tests {c : RequestData} {T : Bytes} {n : Nat} (h : PostHead c T n) (hc : Idle c)
    {env : CallEnv} {b₁ : Bytes} (hfirst : env.Delivers (T ++ b₁)) {envs : List CallEnv} {ps : List Bytes}
    (hps : List.Forall₂ CallEnv.Delivers envs ps) (hmod : ∀ e ∈ (env :: envs).dropLast, e.epollMod = true) :
    bodyTests c (env :: envs) = pieceTests n (leftover b₁) ps := by
  obtain ⟨hlen, hparse⟩ := parseStages_idle hc hfirst
  obtain ⟨-, a, v, hs, hv, hn, hleaves⟩ := h.leaves hc (by rw [List.length_append] at hlen; omega)
  rw [hleaves b₁ hlen] at hparse
  exact bodyTests_pieces hps hmod hparse hs hv hn

/-! ## When the count is right -/

/-- The answer comes in the first call that has received the body. -/
def AnsweredWhole (c : RequestData) (envs : List CallEnv) (n : Nat) (b₁ : Bytes) (ps : List Bytes) : Prop :=
  ∀ k, EntersAnalysisAt c envs k ↔ FirstWhole n b₁ ps k

/-- Nothing but the body is counted. -/
def CountsBody (c : RequestData) (envs : List CallEnv) (b₁ : Bytes) (ps : List Bytes) : Prop :=
  ∀ k x whole, (bodyTests c envs)[k]? = some (x, whole) → x = received b₁ ps k

/-- With `m` bytes too many in front, the answer comes too early exactly when some call has received
less than the body, but no more than `m` bytes less. -/
theorem firstWhole_early {n : Nat} {x b₁ : Bytes} {ps : List Bytes} :
    (∀ k, FirstWhole n (x ++ b₁) ps k ↔ FirstWhole n b₁ ps k) ↔
      ∀ k, k ≤ ps.length → n ≤ x.length + (received b₁ ps k).length → n ≤ (received b₁ ps k).length := by
  have hlength : ∀ k, (received (x ++ b₁) ps k).length = x.length + (received b₁ ps k).length := by
    intro k
    simp only [received, List.length_append]
    omega
  unfold FirstWhole
  simp only [hlength]
  constructor
  · intro hsame k hk hearly
    have hex : ∃ j, n ≤ x.length + (received b₁ ps j).length := ⟨k, hearly⟩
    -- the first call that looks whole
    classical
    have hle : Nat.find hex ≤ k := Nat.find_min' hex hearly
    obtain ⟨-, hwhole, -⟩ := (hsame (Nat.find hex)).1 ⟨by omega, Nat.find_spec hex, fun j hj => by
      have := Nat.find_min hex hj
      omega⟩
    exact Nat.le_trans hwhole (received_mono b₁ ps hle)
  · intro hright k
    constructor
    · rintro ⟨hk, hwhole, hbefore⟩
      refine ⟨hk, hright k hk hwhole, fun j hj => ?_⟩
      have := hbefore j hj
      omega
    · rintro ⟨hk, hwhole, hbefore⟩
      refine ⟨hk, by omega, fun j hj => ?_⟩
      by_contra hge
      have := hright j (by omega) (by omega)
      have := hbefore j hj
      omega

/-- **Bug** (`requestData.cpp:349`, `:359`): where nothing stands behind the blank line, `content` keeps the
LF CR LF in front of it. Every call of a `POST` counts the body and nothing else, and the answer
comes in the first call that has received the whole of it, exactly when the read that ends the
head brings a byte of the body as well. Without one the answer still comes in the right call as long
as no call has received all but three bytes or less. -/
theorem postBody_counted_iff {c : RequestData} {T : Bytes} {n : Nat} (h : PostHead c T n) (hc : Idle c)
    {env : CallEnv} {b₁ : Bytes} (hfirst : env.Delivers (T ++ b₁)) {envs : List CallEnv} {ps : List Bytes}
    (hps : List.Forall₂ CallEnv.Delivers envs ps) (hmod : ∀ e ∈ (env :: envs).dropLast, e.epollMod = true) :
    (AnsweredWhole c (env :: envs) n b₁ ps ∧ CountsBody c (env :: envs) b₁ ps ↔ b₁ ≠ []) ∧
    (AnsweredWhole c (env :: envs) n b₁ ps ↔ b₁ ≠ [] ∨ ∀ k, k ≤ ps.length →
      n ≤ 3 + (received b₁ ps k).length → n ≤ (received b₁ ps k).length) := by
  have htests := h.tests hc hfirst hps hmod
  have hanswered : AnsweredWhole c (env :: envs) n b₁ ps ↔
      ∀ k, FirstWhole n (leftover b₁) ps k ↔ FirstWhole n b₁ ps k := by
    unfold AnsweredWhole EntersAnalysisAt
    rw [htests]
    simp only [pieceTests_true]
  by_cases hb : b₁ = []
  · subst hb
    have hfirst : ¬ CountsBody c (env :: envs) [] ps := by
      intro hcounts
      have hzero : ∃ whole, (bodyTests c (env :: envs))[0]? = some (leftover [], whole) := by
        rw [htests]
        cases ps with
        | nil => exact ⟨_, rfl⟩
        | cons p ps =>
          rw [pieceTests]
          split
          · exact ⟨_, rfl⟩
          · exact ⟨_, rfl⟩
      obtain ⟨whole, hzero⟩ := hzero
      exact absurd (hcounts 0 _ whole hzero) (by simp [leftover, received])
    refine ⟨⟨fun hall => absurd hall.2 hfirst, fun hne => absurd rfl hne⟩, ?_⟩
    rw [hanswered, show leftover [] = [LF, CR, LF] ++ [] from rfl, firstWhole_early]
    simp
  · have hleft : leftover b₁ = b₁ := if_neg hb
    rw [hleft] at htests hanswered
    have hright := hanswered.2 fun k => Iff.rfl
    refine ⟨⟨fun _ => hb, fun _ => ⟨hright, fun k x whole hx => ?_⟩⟩,
      ⟨fun _ => Or.inl hb, fun _ => hright⟩⟩
    rw [htests] at hx
    exact pieceTests_content hx

/-! ## Five bytes -/

def fiveHead : Bytes := ascii "POST / HTTP/1.1\r\nContent-length: 5\r\n\r\n"

set_option maxRecDepth 4000 in
theorem fiveHead_head : PostHead (.new 3 5 (ascii "/")) fiveHead 5 where
  accepted := by
    have hhead : (readHead (.new 3 5 (ascii "/")) fiveHead).toOption =
        some { RequestData.new 3 5 (ascii "/") with
          fileName := ascii "index.html", method := .post, httpVersion := .http11, state := .recvBody
          hState := .hEndLF, content := [LF, CR, LF]
          headers := Finmap.singleton (ascii "Content-length") (ascii "5") } := by decide
    cases hr : readHead (.new 3 5 (ascii "/")) fiveHead with
    | error e => rw [hr] at hhead; cases hhead
    | ok a =>
      rw [hr] at hhead
      cases hhead
      exact ⟨_, ascii "5", rfl, rfl, by decide, by decide⟩
  shortest := by
    have hparts : ∀ k < fiveHead.length,
        (readHead (.new 3 5 (ascii "/")) (fiveHead.take k)).toOption = none := by decide
    intro T' t hT hne a hread
    have hlt : T'.length < fiveHead.length := by
      rw [hT, List.length_append]
      have := List.length_pos_iff.2 hne
      omega
    have hpart := hparts T'.length hlt
    rw [hT, List.take_left, hread] at hpart
    cases hpart

theorem fiveHead_short : fiveHead ≠ [] ∧ (fiveHead ++ ascii "he").length < MAX_BUFF := by decide

/-- `he` with the head and `llo` behind it: the second call answers. -/
theorem helloSplit_counted :
    AnsweredWhole (.new 3 5 (ascii "/")) [reading (fiveHead ++ ascii "he"), reading (ascii "llo")] 5
      (ascii "he") [ascii "llo"] ∧
    CountsBody (.new 3 5 (ascii "/")) [reading (fiveHead ++ ascii "he"), reading (ascii "llo")]
      (ascii "he") [ascii "llo"] :=
  (postBody_counted_iff fiveHead_head (idle_new 3 5 _)
    (delivers_reading (by simp [fiveHead_short]) fiveHead_short.2)
    (.cons (delivers_reading (by decide) (by decide)) .nil)
    (by intro e he; cases List.mem_singleton.1 he; rfl)).1.2 (by decide)

/-- The head alone and `he` behind it: the second call answers, with two bytes of the five. -/
theorem headAlone_answeredEarly :
    ¬ ∀ (c : RequestData) (T : Bytes) (n : Nat) (b₁ : Bytes) (ps : List Bytes) (env : CallEnv)
      (envs : List CallEnv), PostHead c T n → Idle c → env.Delivers (T ++ b₁) →
      List.Forall₂ CallEnv.Delivers envs ps → (∀ e ∈ (env :: envs).dropLast, e.epollMod = true) →
      AnsweredWhole c (env :: envs) n b₁ ps ∧ CountsBody c (env :: envs) b₁ ps := by
  intro h
  have hfirst : (reading fiveHead).Delivers (fiveHead ++ []) := by
    rw [List.append_nil]
    exact delivers_reading fiveHead_short.1 (by decide)
  have hrest : List.Forall₂ CallEnv.Delivers [reading (ascii "he")] [ascii "he"] :=
    .cons (delivers_reading (by decide) (by decide)) .nil
  have hmod : ∀ e ∈ [reading fiveHead, reading (ascii "he")].dropLast, e.epollMod = true := by
    intro e he; cases List.mem_singleton.1 he; rfl
  have htests := fiveHead_head.tests (idle_new 3 5 _) hfirst hrest hmod
  have hearly : EntersAnalysisAt (.new 3 5 (ascii "/")) [reading fiveHead, reading (ascii "he")] 1 :=
    ⟨[LF, CR, LF] ++ ascii "he", by rw [htests]; decide⟩
  have hwhole := ((h _ _ _ [] _ _ _ fiveHead_head (idle_new 3 5 _) hfirst hrest hmod).1 1).1 hearly
  exact absurd hwhole.2.1 (by decide)

end HPServer
