import NetworkOptimization.Arrays
import NetworkOptimization.Baseline
import NetworkOptimization.ClientSafety
import NetworkOptimization.Conversation
import NetworkOptimization.Exchange
import NetworkOptimization.Experiments
import NetworkOptimization.Isolation
import NetworkOptimization.Lengths
import NetworkOptimization.Lifetimes
import NetworkOptimization.Locking
import NetworkOptimization.Posts
import NetworkOptimization.Progress
import NetworkOptimization.Receives
import NetworkOptimization.Resources
import NetworkOptimization.Returns
import NetworkOptimization.Scripts
import NetworkOptimization.SendCompletions
import NetworkOptimization.SendQueue
import NetworkOptimization.Targets
