import ProcessLogic.Formula.Inspect
import ProcessLogic.Formula.Survey
import ProcessLogic.Main
import ProcessLogic.Proofs.Cli.Placement
import ProcessLogic.Proofs.Cli.Report
import ProcessLogic.Proofs.Cli.Session
import ProcessLogic.Proofs.Engine.Environment
import ProcessLogic.Proofs.Engine.Framing
import ProcessLogic.Proofs.Engine.Settings
import ProcessLogic.Proofs.Engine.Wire
import ProcessLogic.Proofs.Formula.Dependence
import ProcessLogic.Proofs.Formula.Descent
import ProcessLogic.Proofs.Formula.Exploration
import ProcessLogic.Proofs.Formula.Listener
import ProcessLogic.Proofs.Formula.Numbering
import ProcessLogic.Proofs.Formula.Outlook
import ProcessLogic.Proofs.Formula.Readable
import ProcessLogic.Proofs.Formula.Response
import ProcessLogic.Proofs.Formula.Rounds
import ProcessLogic.Proofs.Task.Amendment
import ProcessLogic.Proofs.Task.Freshness
import ProcessLogic.Proofs.Task.Record
import ProcessLogic.Proofs.Task.Statement
import ProcessLogic.Proofs.Task.Stray
