import StaticSite.CommandLine
import StaticSite.Proofs.Build.Clean
/-!
Commands with the same arguments. Main statement: cleaning undoes a build (`clean_undoes_build`).
-/
namespace StaticSite.CommandLine

open FileSystem Action Location

variable {t t' : Topic} {a b : Arguments} {x : String} {arguments rest : List String}
  {source output q : Path} {w : World} {l : Location}

-- What succeeds still does if its parts do.
theorem bind_eq_ok_of_imp {α β : Type} {y y' : Except Refusal α} {f f' : α → Except Refusal β}
    {c c' : β} (hy : ∀ a, y = .ok a → y' = .ok a) (hf : ∀ a, f a = .ok c → f' a = .ok c')
    (h : y >>= f = .ok c) : y' >>= f' = .ok c' := by
  cases y
  case error => simp [bind, Except.bind] at h
  case ok a =>
    rw [hy a rfl]
    exact hf a h

section

variable (ht : t'.hasOutput = t.hasOutput)

include ht

theorem addLong_of_hasOutput (h : addLong t x rest a = .ok b) : addLong t' x rest a = .ok b := by
  unfold addLong at h ⊢
  rw [ht]
  dsimp only at h ⊢
  split at h
  case isTrue hc => rwa [if_pos hc]
  case isFalse =>
    split at h
    case isTrue => simp at h
    case isFalse => split at h <;> simp at h

theorem addShort_of_hasOutput {cs : List Char} (h : addShort t a cs = .ok b) :
    addShort t' a cs = .ok b := by
  unfold addShort at h ⊢
  rw [ht]
  split at h
  case h_1 => exact h
  case h_2 => simp at h
  case h_3 => simp at h
  case h_4 =>
    split at h
    case isTrue hc => rwa [if_pos hc]
    case isFalse => simp at h

-- Arguments are read in the same way for commands that have the same options. Only what is wrong
-- with them is told of the command.
theorem readArguments_of_hasOutput (h : readArguments t arguments a = .ok b) :
    readArguments t' arguments a = .ok b := by
  induction arguments generalizing a
  case nil => exact h
  case cons x rest hi =>
    rw [readArguments] at h ⊢
    split at h
    case isTrue hc => exact (if_pos hc).trans (hi h)
    case isFalse hc =>
      rw [if_neg hc]
      split at h
      case isTrue ho =>
        rw [if_pos ho]
        dsimp only at h ⊢
        split at h
        case h_1 => exact bind_eq_ok_of_imp (fun _ => addLong_of_hasOutput ht) (fun _ => hi) h
        case h_2 => exact bind_eq_ok_of_imp (fun _ => addShort_of_hasOutput ht) (fun _ => hi) h
      case isFalse ho =>
        rw [if_neg ho]
        split at h
        case isTrue hw => exact (if_pos hw).trans (hi h)
        case isFalse hw =>
          rw [if_neg hw]
          split at h
          case isTrue => simp at h
          case isFalse hv => exact (if_neg hv).trans (hi h)

theorem directories_of_hasOutput (h : directories t arguments = .ok (source, output)) :
    directories t' arguments = .ok (source, output) := by
  refine bind_eq_ok_of_imp (fun _ => readArguments_of_hasOutput ht) (fun a h => ?_) h
  dsimp only at h ⊢
  split at h
  case isTrue => simp [bind, Except.bind, throw, throwThe, MonadExceptOf.throw] at h
  case isFalse hw =>
    rw [if_neg hw]
    split at h
    case isTrue => simp [bind, Except.bind, throw, throwThe, MonadExceptOf.throw] at h
    case isFalse hr => exact (if_neg hr).trans h

end

-- The two commands agree on the output.
theorem ofArguments_clean
    (h : Command.ofArguments ("build" :: arguments) = .ok (.build source output)) :
    Command.ofArguments ("clean" :: arguments) = .ok (.clean output) := by
  have hb : Command.ofArguments ("build" :: arguments) = Command.ofTopic .build arguments := rfl
  have hc : Command.ofArguments ("clean" :: arguments) = Command.ofTopic .clean arguments := rfl
  rw [hb, Command.ofTopic] at h
  rw [hc, Command.ofTopic]
  have ht : Topic.clean.hasOutput = Topic.build.hasOutput := rfl
  refine bind_eq_ok_of_imp (fun _ => directories_of_hasOutput ht) (fun d h => ?_) h
  obtain ⟨-, rfl⟩ := Command.build.inj (Except.ok.inj h)
  rfl

theorem exec_build (source output : Path) (w : World) :
    (exec (Command.run (.build source output)) w).2 = (exec (Build.site source output) w).2 := by
  rw [Command.run, exec_bind, exec_orElseThrow]
  rcases exec (Build.site source output) w with ⟨e | r, u⟩ <;> rfl

-- Cleaning undoes a build, whatever it came to, if the output was missing in a directory that was
-- there. Cleaning again changes nothing.
theorem clean_undoes_build (hf : w.files.Linkless)
    (ha : Command.ofArguments ("build" :: arguments) = .ok (.build source output))
    (hq : output.enclosing? = some q) (hd : w.files.find w.directory q = .ok (l, .directory))
    (hn : w.files.find w.directory output = .error .notFound) :
    Command.ofArguments ("clean" :: arguments) = .ok (.clean output) ∧
      ∃ v v', exec (Command.clean output).run (exec (Command.build source output).run w).2 =
          (.ok (), v) ∧ v.files = w.files ∧
        exec (Command.clean output).run v = (.ok (), v') ∧ v'.files = w.files := by
  have hclean {u v : World} (h : exec (Build.clean output) u = (.ok (), v)) :
      exec (Command.clean output).run u = (.ok (), v) := exec_orElseThrow_of_ok h
  have hvacant {u : World} (hu : u.files = w.files) (hdir : u.directory = w.directory) :
      exec (Command.clean output).run u = (.ok (), u) :=
    hclean (Build.exec_clean_of_find (hu ▸ hf) (by rw [hu, hdir, hn]))
  refine ⟨ofArguments_clean ha, ?_⟩
  rw [exec_build]
  rcases Build.added_of_site hf hq hd hn rfl with ⟨hu, hdir⟩ | ⟨dir, name, hadd⟩
  case inl => exact ⟨_, _, hvacant hu hdir, hu, hvacant hu hdir, hu⟩
  case inr =>
    obtain ⟨v, hv, hu, hdir⟩ := hadd.exec_clean
    exact ⟨v, v, hclean hv, hu, hvacant hu hdir, hu⟩

-- A source whose second entry does not compile.
def brokenPage : World where
  files := ((FileSystem.empty.put [] "s" .directory).put ["s"] "a" (.file "b".toUTF8)).put ["s"]
    "c.md" (.file "d".toUTF8)
  directory := []
  log := []

theorem brokenPage_linkless : brokenPage.files.Linkless :=
  ((Linkless.empty.put (by simp)).put (by simp)).put (by simp)

theorem brokenPage_clean_undoes_build :
    brokenPage.files.Linkless ∧
      Command.ofArguments ["build", "s", "-o", "o"] = .ok (.build "s" "o") ∧
      Path.enclosing? "o" = some "." ∧
      brokenPage.files.find brokenPage.directory "." = .ok ([], .directory) ∧
      brokenPage.files.find brokenPage.directory "o" = .error .notFound ∧
      (exec (Command.build "s" "o").run brokenPage).1.isOk = false ∧
      (exec (Command.build "s" "o").run brokenPage).2.files.get? ["o", "a"] =
        some (.file "b".toUTF8) ∧
      Command.ofArguments ["clean", "s", "-o", "o"] = .ok (.clean "o") ∧
      ∃ v v', exec (Command.clean "o").run (exec (Command.build "s" "o").run brokenPage).2 =
          (.ok (), v) ∧ v.files = brokenPage.files ∧
        exec (Command.clean "o").run v = (.ok (), v') ∧ v'.files = brokenPage.files := by
  have ha : Command.ofArguments ["build", "s", "-o", "o"] = .ok (.build "s" "o") := by
    decide +kernel
  have hq : Path.enclosing? "o" = some "." := by decide +kernel
  have hd : brokenPage.files.find brokenPage.directory "." = .ok ([], .directory) := by
    decide +kernel
  have hn : brokenPage.files.find brokenPage.directory "o" = .error .notFound := by
    decide +kernel
  exact ⟨brokenPage_linkless, ha, hq, hd, hn, by decide +kernel, by decide +kernel,
    clean_undoes_build brokenPage_linkless ha hq hd hn⟩

end StaticSite.CommandLine
