import LastpassSshAgent.Resumption.Pool
import LastpassSshAgent.Signing
import LastpassSshAgent.Epochs
import LastpassSshAgent.Idle
import LastpassSshAgent.Interactions
import LastpassSshAgent.Signatures
import LastpassSshAgent.Userauth
import LastpassSshAgent.Bindings
import LastpassSshAgent.KeysKept
import LastpassSshAgent.Builders
import LastpassSshAgent.Discards
import LastpassSshAgent.Questions
import LastpassSshAgent.Passphrases
import LastpassSshAgent.Diagnosis
import LastpassSshAgent.OneAsk
import LastpassSshAgent.Rejections
import LastpassSshAgent.ItemIds
import LastpassSshAgent.AnsweredOnce
import LastpassSshAgent.Listing
import LastpassSshAgent.LineBreaks
import LastpassSshAgent.Discovery
import LastpassSshAgent.KnownHosts
import LastpassSshAgent.BindFormat
import LastpassSshAgent.Enclave
import LastpassSshAgent.ScreenWatch
import LastpassSshAgent.RefreshSchedule
import LastpassSshAgent.PrivateFiles
import LastpassSshAgent.Oversized
import LastpassSshAgent.SignableKeys
import LastpassSshAgent.SecretReaders
import LastpassSshAgent.TerminalLines
import LastpassSshAgent.Slices
import LastpassSshAgent.LpassExec
import LastpassSshAgent.MasterStore
import LastpassSshAgent.Seeding
import LastpassSshAgent.Connection
import LastpassSshAgent.TerminalLeft
import LastpassSshAgent.SocketTurns
import LastpassSshAgent.Finishing
import LastpassSshAgent.EnvCommand
import LastpassSshAgent.Checklist
import LastpassSshAgent.FedPasswords
import LastpassSshAgent.Helpers
