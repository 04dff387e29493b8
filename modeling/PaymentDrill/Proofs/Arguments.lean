import PaymentDrill.Proofs.Replay
import PaymentDrill.Proofs.Rereading
import PaymentDrill.Wallet.Standin

/-!
# Arguments of a wallet program

Every request to a wallet program starts it with a list of arguments. Only a NUL keeps an
argument from being passed on, and none of those that a drill makes itself has one, amounts
of any size included. So a stand-in that can be started, and that is handed no NUL by its
configuration, is started once for each request and keeps the arguments of all of them.
-/
namespace PaymentDrill

lemma nul_not_mem_natText (n : Nat) : '\x00' ∉ natText n := by
  intro h
  have hdigit := Decimal.isDigit_natText h
  simp at hdigit

lemma hasNul_ofList {cs : List Char} (h : '\x00' ∉ cs) :
    WalletProgram.hasNul (String.ofList cs) = false := by
  simpa [WalletProgram.hasNul] using h

/-- The arguments of the start that a request makes. -/
def Event.arguments? : Event → Option (List String)
  | .balances => some ["--wallet", "getbalance"]
  | .unlock password => some ["--wallet", "walletpassphrase", password, "0"]
  | .send t => some ["--wallet", "sendfrom", t.account, t.address, String.ofList t.amount.toText,
      "0", String.ofList (natText t.minConfirmations.toNat)]
  | _ => none

/-- A request is plain when all its arguments can be passed on. -/
def Event.Plain (e : Event) : Prop :=
  ∀ words, e.arguments? = some words → ∀ word ∈ words, WalletProgram.hasNul word = false

lemma plain_balances : Event.balances.Plain := by
  rintro words ⟨⟩
  decide

lemma plain_unlock {password : String} (h : WalletProgram.hasNul password = false) :
    (Event.unlock password).Plain := by
  rintro words ⟨⟩ word hword
  simp only [List.mem_cons, List.not_mem_nil, or_false] at hword
  rcases hword with rfl | rfl | rfl | rfl <;> first | exact h | decide

lemma plain_send {t : Transfer} (haccount : WalletProgram.hasNul t.account = false)
    (haddress : WalletProgram.hasNul t.address = false) : (Event.send t).Plain := by
  rintro words ⟨⟩ word hword
  simp only [List.mem_cons, List.not_mem_nil, or_false] at hword
  rcases hword with rfl | rfl | rfl | rfl | rfl | rfl | rfl
  · decide
  · decide
  · exact haccount
  · exact haddress
  · exact hasNul_ofList (Binary64.not_mem_toText (by decide) (by decide))
  · decide
  · exact hasNul_ofList (nul_not_mem_natText _)

/-- A configuration is plain when nothing that it hands to the wallet has a NUL. -/
structure Config.Plain (config : Config) : Prop where
  password : WalletProgram.hasNul config.password = false
  account : WalletProgram.hasNul config.account = false
  addresses : ∀ address ∈ config.addresses, WalletProgram.hasNul address = false

namespace Standin

variable {w : Standin} {d : Directory} {path : List (List UInt8)} {name : String}

/-- Whether a wallet program of a name can be started at all. -/
def startable (d : Directory) (path : List (List UInt8)) (name : String) :
    Except SystemFault Unit :=
  if WalletProgram.hasNul name then .error .nulInArgument
  else d.program path (Text.Utf8.encode name.toList)

/-- The wallet that the stand-in is under a name. -/
def wallet (w : Standin) (d : Directory) (path : List (List UInt8)) (name : String) :
    Wallet State := (WalletProgram.named name).wallet (w.host d path)

lemma start_startable (h : startable d path name = .ok ()) (command : Command)
    (operands : List String) (s : State)
    (plain : ∀ word ∈ (WalletProgram.named name).arguments command operands,
      WalletProgram.hasNul word = false) :
    (WalletProgram.named name).start (w.host d path) command operands s =
      let c := w.answer ((WalletProgram.named name).arguments command operands) s
      (.ok c.1, c.2) := by
  unfold startable at h
  split_ifs at h with hname
  have hany : ¬((WalletProgram.named name).program ::
      (WalletProgram.named name).arguments command operands).any WalletProgram.hasNul = true := by
    rw [List.any_cons, Bool.or_eq_true, not_or]
    exact ⟨hname, by simpa using plain⟩
  unfold WalletProgram.start
  dsimp only
  rw [if_neg hany]
  simp only [host, WalletProgram.named, h]

/-- A query that is started. -/
lemma balances_wallet (h : startable d path name = .ok ()) (s : State) :
    (w.wallet d path name).balances s =
      let text := Text.Utf8.decodeLossy (nthOrLast w.balances s.queries [])
      { result := (Balances.ofText text).mapError .balancesInvalid
        state := ⟨s.calls ++ [["--wallet", "getbalance"]], s.queries + 1, s.sends⟩
        notices := (if (w.queryExit s.queries).isSuccess then []
          else [.balanceExit (w.queryExit s.queries)]) ++ [.balanceOutput text] } := by
  simp only [wallet, WalletProgram.wallet, WalletProgram.balances]
  rw [start_startable h .getBalance [] s (plain_balances _ rfl)]
  rfl

/-- An unlocking that is started. -/
lemma unlock_wallet (h : startable d path name = .ok ()) {password : String}
    (plain : (Event.unlock password).Plain) (s : State) :
    (w.wallet d path name).unlock password s =
      { result := .ok w.unlockExit.code
        state := ⟨s.calls ++ [["--wallet", "walletpassphrase", password, "0"]], s.queries, s.sends⟩
        notices := if w.unlockExit.code = 0 then [] else [.unlockExit w.unlockExit.code] } := by
  simp only [wallet, WalletProgram.wallet, WalletProgram.unlock]
  rw [start_startable h .unlock (WalletProgram.unlockOperands password) s (plain _ rfl)]
  rfl

/-- A send that is started. -/
lemma send_wallet (h : startable d path name = .ok ()) {t : Transfer}
    (plain : (Event.send t).Plain) (s : State) :
    (w.wallet d path name).send t s =
      { result := .ok (nthOrLast w.sendExits s.sends (.status 0)).code
        state := ⟨s.calls ++ (Event.send t).arguments?.toList, s.queries, s.sends + 1⟩
        notices := w.interruptNotices (s.sends + 1)
        passed := w.printed (s.sends + 1)
        interrupt := decide (w.interruptNotices (s.sends + 1) ≠ []) } := by
  simp only [wallet, WalletProgram.wallet, WalletProgram.send]
  rw [start_startable h .send (WalletProgram.sendOperands t) s (plain _ rfl)]
  rfl

open Drill

end Standin

end PaymentDrill
